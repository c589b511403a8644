import KernelWrap.Declaration.Tree
import KernelWrap.Proofs.Describes

/-! Derivations of declarations. Every reader that succeeds has taken the tokens of what it returns and
nothing else, so a declaration that is read is derived by the tokens that were taken; the readers take
every derivation for what it is, so there is one at most. What is recorded of a declaration can be
told by the symbols of its parameters. -/

namespace KernelWrap.Declaration

/-- The tokens are a derivation of the declaration, with its empty list of parameters written as
`void` or not at all. -/
structure DeclaredKernel.Derives (d : DeclaredKernel) (void : Bool) (ts : List Token) : Prop where
  legal : ∀ p ∈ d.parameters, p.Legal
  reads : Reads (d.symbols void) ts

/-- The record that is read off a parameter: everything but the name and the type by the symbols that
stand anywhere in the parameter. -/
structure ParameterSignature.Records (r : ParameterSignature) (p : Parameter) : Prop where
  name : r.name = String.ofList p.name
  space : ∀ s, r.space = some s ↔ .key (.space s) ∈ p.symbols
  isConst : r.isConst = true ↔ .key (.qualifier .const) ∈ p.symbols
  isVolatile : r.isVolatile = true ↔ .key (.qualifier .volatile) ∈ p.symbols
  type : (r.dataType, r.vectorWidth) = splitWidth p.base.typeName
  isPointer : r.isPointer = true ↔ .key .star ∈ p.symbols

structure KernelSignature.Records (s : KernelSignature) (line : Nat) (d : DeclaredKernel) : Prop where
  name : s.name = String.ofList d.name
  line : s.line = line
  parameters : List.Forall₂ ParameterSignature.Records s.parameters d.parameters

section Soundness

variable {ts rest : List Token}

theorem exists_of_bind {α β : Type} {x : Except Failure α} {f : α → Except Failure β} {b : β}
    (h : x >>= f = .ok b) : ∃ a, x = .ok a ∧ f a = .ok b := by
  cases x with
  | error e => cases h
  | ok a => exact ⟨a, rfl, h⟩

theorem exists_of_map {α β : Type} {x : Except Failure α} {f : α → β} {b : β}
    (h : x.map f = .ok b) : ∃ a, x = .ok a ∧ f a = b := by
  cases x with
  | error e => cases h
  | ok a => exact ⟨a, rfl, Except.ok.inj h⟩

theorem expect_eq_ok {k : TokenKind} {f : Fault} {t : Token} (h : expect k f ts = .ok (t, rest)) :
    ts = t :: rest ∧ t.kind = k := by
  unfold expect at h
  split at h
  · split at h
    · next hk =>
      cases h
      exact ⟨rfl, hk⟩
    · cases h
  · cases h

theorem Reads.append {ss ss' : List Symbol} {us us' : List Token} (h : Reads ss us)
    (h' : Reads ss' us') : Reads (ss ++ ss') (us ++ us') := List.rel_append h h'

theorem reads_of_readMarks {spaced : Bool} {ms : List Mark}
    (h : readMarks spaced ts = .ok (ms, rest)) : ∃ us, ts = us ++ rest ∧
      Reads (ms.map fun m => .key m.kind) us ∧ ms.countP Mark.isSpace + spaced.toNat ≤ 1 := by
  induction ts generalizing spaced ms with
  | nil =>
    cases h
    exact ⟨[], rfl, .nil, by cases spaced <;> decide⟩
  | cons t ts ih =>
    rw [readMarks] at h
    split at h
    · next q hq =>
      obtain ⟨⟨ms', rest'⟩, hm, e⟩ := exists_of_map h
      cases e
      obtain ⟨us, rfl, hu, hc⟩ := ih hm
      exact ⟨t :: us, rfl, .cons hq hu, hc⟩
    · next s hs =>
      split at h
      · cases h
      · next hsp =>
        obtain ⟨⟨ms', rest'⟩, hm, e⟩ := exists_of_map h
        cases e
        obtain ⟨us, rfl, hu, hc⟩ := ih hm
        refine ⟨t :: us, rfl, .cons hs hu, ?_⟩
        rw [List.countP_cons_of_pos rfl, eq_false_of_ne_true hsp]
        exact hc
    · cases h
      exact ⟨[], rfl, .nil, by cases spaced <;> decide⟩

theorem reads_of_readQualifiers (ts : List Token) : ∃ us, ts = us ++ (readQualifiers ts).2 ∧
    Reads (qualifierSymbols (readQualifiers ts).1) us := by
  induction ts with
  | nil => exact ⟨[], rfl, .nil⟩
  | cons t ts ih =>
    rw [readQualifiers]
    split
    · next q hq =>
      obtain ⟨us, hs, hu⟩ := ih
      exact ⟨t :: us, congrArg (t :: ·) hs, .cons hq hu⟩
    · exact ⟨[], rfl, .nil⟩

theorem reads_of_readBase {b : BaseType} (h : readBase ts = .ok (b, rest)) :
    ∃ us, ts = us ++ rest ∧ Reads b.symbols us ∧
      ∀ w, b = .unsigned (some w) → w ∈ lengthWords := by
  unfold readBase at h
  split at h
  · next t ts =>
    split at h
    · next hk =>
      cases h
      exact ⟨[t], rfl, .cons ⟨hk, rfl⟩ .nil, nofun⟩
    · next hk =>
      cases h
      exact ⟨[t], rfl, .cons hk .nil, nofun⟩
    · next hk =>
      split at h
      · next w ts =>
        split at h
        · next hw =>
          cases h
          refine ⟨[t, w], rfl, .cons hk (.cons ⟨hw.1, rfl⟩ .nil), ?_⟩
          rintro _ ⟨⟩
          exact hw.2.1
        · cases h
          exact ⟨[t], rfl, .cons hk .nil, nofun⟩
      · cases h
        exact ⟨[t], rfl, .cons hk .nil, nofun⟩
    · cases h
  · cases h

theorem reads_of_readPointer {p : Option (List TypeQualifier)} (h : readPointer ts = .ok (p, rest)) :
    ∃ us, ts = us ++ rest ∧ Reads (pointerSymbols p) us := by
  unfold readPointer at h
  split at h
  · next t ts =>
    split at h
    · next hk =>
      split at h
      · cases h
      · cases h
        obtain ⟨us, hs, hu⟩ := reads_of_readQualifiers ts
        exact ⟨t :: us, congrArg (t :: ·) hs, .cons hk hu⟩
    · cases h
      exact ⟨[], rfl, .nil⟩
  · cases h
    exact ⟨[], rfl, .nil⟩

theorem readParameter_cases {p : Parameter} (h : readParameter ts = .ok (p, rest)) :
    ∃ marked based pointed t, readMarks false ts = .ok (p.marks, marked) ∧
      readBase marked = .ok (p.base, based) ∧ (readQualifiers based).1 = p.qualifiers ∧
      readPointer (readQualifiers based).2 = .ok (p.pointer, pointed) ∧
      pointed = t :: rest ∧ t.kind = .word ∧ t.text = p.name := by
  obtain ⟨⟨marks, marked⟩, hm, h⟩ := exists_of_bind h
  obtain ⟨⟨base, based⟩, hb, h⟩ := exists_of_bind h
  obtain ⟨⟨pointer, pointed⟩, hp, h⟩ := exists_of_bind h
  obtain ⟨⟨t, rest'⟩, ht, h⟩ := exists_of_bind h
  cases h
  obtain ⟨hn, hk⟩ := expect_eq_ok ht
  exact ⟨marked, based, pointed, t, hm, hb, rfl, hp, hn, hk, rfl⟩

theorem reads_of_readParameter {p : Parameter} (h : readParameter ts = .ok (p, rest)) :
    p.Legal ∧ ∃ us, ts = us ++ rest ∧ Reads p.symbols us := by
  obtain ⟨marked, based, pointed, t, hm, hb, hq, hp, rfl, hk, hn⟩ := readParameter_cases h
  obtain ⟨us₁, rfl, h₁, hc⟩ := reads_of_readMarks hm
  obtain ⟨us₂, rfl, h₂, hl⟩ := reads_of_readBase hb
  obtain ⟨us₃, hs, h₃⟩ := reads_of_readQualifiers based
  obtain ⟨us₄, hs', h₄⟩ := reads_of_readPointer hp
  rw [hq] at h₃
  rw [hs'] at hs
  refine ⟨⟨hl, hc⟩, us₁ ++ (us₂ ++ (us₃ ++ (us₄ ++ [t]))), ?_, ?_⟩
  · simp only [hs, List.append_assoc, List.singleton_append]
  · exact h₁.append (h₂.append (h₃.append (h₄.append (.cons ⟨hk, hn⟩ .nil))))

theorem reads_of_readParameters {ps : List Parameter} (h : readParameters ts = .ok (ps, rest)) :
    ps ≠ [] ∧ (∀ q ∈ ps, q.Legal) ∧ ∃ us, ts = us ++ rest ∧ Reads (parameterSymbols ps) us := by
  fun_induction readParameters ts generalizing ps with
  | case1 ts e he => cases h
  | case2 ts p t rest' hp hc _ _ ih =>
    obtain ⟨⟨qs, rest''⟩, hq, e⟩ := exists_of_map h
    cases e
    obtain ⟨hl, us, rfl, hu⟩ := reads_of_readParameter hp
    obtain ⟨hne, hls, vs, rfl, hv⟩ := ih hq
    obtain ⟨q, qs, rfl⟩ := List.exists_cons_of_ne_nil hne
    refine ⟨by simp, List.forall_mem_cons.2 ⟨hl, hls⟩, us ++ t :: vs, by simp, ?_⟩
    exact hu.append (.cons hc hv)
  | case3 ts p t rest' hp hc =>
    cases h
    obtain ⟨hl, hu⟩ := reads_of_readParameter hp
    exact ⟨by simp, fun q hq => List.mem_singleton.1 hq ▸ hl, hu⟩
  | case4 ts p hp =>
    cases h
    obtain ⟨hl, hu⟩ := reads_of_readParameter hp
    exact ⟨by simp, fun q hq => List.mem_singleton.1 hq ▸ hl, hu⟩

theorem reads_of_readParameterList {ps : List Parameter}
    (h : readParameterList ts = .ok (ps, rest)) : (∀ q ∈ ps, q.Legal) ∧ ∃ void us, ts = us ++ rest ∧
      Reads (if ps = [] ∧ void = true then [.key .void] else parameterSymbols ps) us := by
  have hlist : readParameters ts = .ok (ps, rest) → (∀ q ∈ ps, q.Legal) ∧ ∃ void us, ts = us ++ rest ∧
      Reads (if ps = [] ∧ void = true then [.key .void] else parameterSymbols ps) us := by
    intro h
    obtain ⟨-, hl, us, hs, hu⟩ := reads_of_readParameters h
    exact ⟨hl, false, us, hs, by rwa [if_neg (by simp)]⟩
  unfold readParameterList at h
  split at h
  · next t more =>
    split at h
    · cases h
      exact ⟨nofun, false, [], rfl, .nil⟩
    · split at h
      · split at h
        · next hv =>
          cases h
          exact ⟨nofun, true, [t], rfl, .cons hv.1 .nil⟩
        · exact hlist h
      · exact hlist h
  · exact hlist h

theorem derives_of_readDeclaration {d : DeclaredKernel} (h : readDeclaration ts = .ok (d, rest)) :
    ∃ void us, ts = us ++ rest ∧ d.Derives void us := by
  obtain ⟨⟨t₁, ts₁⟩, h₁, h⟩ := exists_of_bind h
  obtain ⟨⟨t₂, ts₂⟩, h₂, h⟩ := exists_of_bind h
  obtain ⟨⟨t₃, ts₃⟩, h₃, h⟩ := exists_of_bind h
  obtain ⟨⟨t₄, ts₄⟩, h₄, h⟩ := exists_of_bind h
  obtain ⟨⟨ps, ts₅⟩, h₅, h⟩ := exists_of_bind h
  obtain ⟨⟨t₆, ts₆⟩, h₆, h⟩ := exists_of_bind h
  cases h
  obtain ⟨rfl, k₁⟩ := expect_eq_ok h₁
  obtain ⟨rfl, k₂⟩ := expect_eq_ok h₂
  obtain ⟨rfl, k₃⟩ := expect_eq_ok h₃
  obtain ⟨rfl, k₄⟩ := expect_eq_ok h₄
  obtain ⟨rfl, k₆⟩ := expect_eq_ok h₆
  obtain ⟨hl, void, us, rfl, hu⟩ := reads_of_readParameterList h₅
  refine ⟨void, t₁ :: t₂ :: t₃ :: t₄ :: (us ++ [t₆]), by simp, hl, ?_⟩
  exact .cons k₁ (.cons k₂ (.cons ⟨k₃, rfl⟩ (.cons k₄ (hu.append (.cons k₆ .nil)))))

end Soundness

section Records

variable {ts rest : List Token}

def Symbol.kind : Symbol → TokenKind
  | key k => k
  | word _ => .word

theorem map_kind_of_reads {ss : List Symbol} (h : Reads ss ts) :
    ts.map Token.kind = ss.map Symbol.kind := by
  induction h with
  | nil => rfl
  | @cons s t _ _ hm _ ih =>
    have hk : t.kind = s.kind := by
      cases s with
      | key k => exact hm
      | word w => exact hm.1
    rw [List.map_cons, List.map_cons, hk, ih]

def TokenKind.qualifier? : TokenKind → Option TypeQualifier
  | qualifier q => some q
  | _ => none

theorem TokenKind.space?_eq_some {k : TokenKind} {s : AddressSpace} :
    k.space? = some s ↔ k = .space s := by
  cases k <;> simp [space?]

theorem TokenKind.qualifier?_eq_some {k : TokenKind} {q : TypeQualifier} :
    k.qualifier? = some q ↔ k = .qualifier q := by
  cases k <;> simp [qualifier?]

theorem filterMap_qualifierSymbols (qs : List TypeQualifier) :
    ((qualifierSymbols qs).map Symbol.kind).filterMap TokenKind.qualifier? = qs ∧
      ((qualifierSymbols qs).map Symbol.kind).filterMap TokenKind.space? = [] := by
  induction qs with
  | nil => exact ⟨rfl, rfl⟩
  | cons q qs ih => exact ⟨congrArg (q :: ·) ih.1, ih.2⟩

theorem filterMap_pointerSymbols (p : Option (List TypeQualifier)) :
    ((pointerSymbols p).map Symbol.kind).filterMap TokenKind.qualifier? = p.getD [] ∧
      ((pointerSymbols p).map Symbol.kind).filterMap TokenKind.space? = [] := by
  cases p with
  | none => exact ⟨rfl, rfl⟩
  | some qs => exact filterMap_qualifierSymbols qs

theorem filterMap_baseSymbols (b : BaseType) :
    (b.symbols.map Symbol.kind).filterMap TokenKind.qualifier? = [] ∧
      (b.symbols.map Symbol.kind).filterMap TokenKind.space? = [] := by
  unfold BaseType.symbols
  split <;> exact ⟨rfl, rfl⟩

theorem Parameter.filterMap_space? (p : Parameter) :
    (p.symbols.map Symbol.kind).filterMap TokenKind.space? = p.spaces := by
  have hm : ((p.marks.map fun m => Symbol.key m.kind).map Symbol.kind).filterMap TokenKind.space? =
      p.spaces := by
    rw [Parameter.spaces, List.map_map, List.filterMap_map]
    refine List.filterMap_congr fun m _ => ?_
    cases m <;> rfl
  simp only [Parameter.symbols, List.map_append, List.filterMap_append, hm,
    (filterMap_baseSymbols _).2, (filterMap_qualifierSymbols _).2, (filterMap_pointerSymbols _).2]
  exact List.append_nil _

theorem Parameter.filterMap_qualifier? (p : Parameter) :
    (p.symbols.map Symbol.kind).filterMap TokenKind.qualifier? = p.allQualifiers := by
  simp only [Parameter.symbols, List.map_append, List.filterMap_append,
    (filterMap_baseSymbols _).1, (filterMap_qualifierSymbols _).1, (filterMap_pointerSymbols _).1,
    Parameter.allQualifiers, List.append_assoc, List.nil_append, List.map_map, List.filterMap_map]
  refine congrArg₂ (· ++ ·) (List.filterMap_congr fun m _ => ?_)
    (congrArg _ (List.append_nil _))
  cases m <;> rfl

theorem mem_kinds {ss : List Symbol} {k : TokenKind} (hk : k ≠ .word) :
    k ∈ ss.map Symbol.kind ↔ .key k ∈ ss := by
  rw [List.mem_map]
  constructor
  · rintro ⟨s, hs, e⟩
    cases s with
    | key k' => exact (show k' = k from e) ▸ hs
    | word w => exact absurd e.symm hk
  · exact fun h => ⟨_, h, rfl⟩

theorem Parameter.space_mem_symbols {p : Parameter} {s : AddressSpace} :
    .key (.space s) ∈ p.symbols ↔ s ∈ p.spaces := by
  rw [← p.filterMap_space?, ← mem_kinds TokenKind.noConfusion, List.mem_filterMap]
  simp only [TokenKind.space?_eq_some, exists_eq_right]

theorem Parameter.qualifier_mem_symbols {p : Parameter} {q : TypeQualifier} :
    .key (.qualifier q) ∈ p.symbols ↔ q ∈ p.allQualifiers := by
  rw [← p.filterMap_qualifier?, ← mem_kinds TokenKind.noConfusion, List.mem_filterMap]
  simp only [TokenKind.qualifier?_eq_some, exists_eq_right]

theorem Parameter.star_mem_symbols {p : Parameter} :
    .key .star ∈ p.symbols ↔ p.pointer.isSome = true := by
  have hq : ∀ qs, Symbol.key .star ∉ qualifierSymbols qs := by
    intro qs h
    obtain ⟨q, -, e⟩ := List.mem_map.1 h
    cases e
  have hm : Symbol.key .star ∉ p.marks.map fun m => .key m.kind := by
    intro h
    obtain ⟨m, -, e⟩ := List.mem_map.1 h
    cases m <;> cases e
  have hb : Symbol.key .star ∉ p.base.symbols := by
    unfold BaseType.symbols
    split <;> simp
  rw [Parameter.symbols]
  cases e : p.pointer with
  | none => simp [hm, hb, hq, pointerSymbols]
  | some qs => simp [pointerSymbols]

attribute [ext] ParameterSignature

theorem ParameterSignature.records_iff {p : Parameter} (hp : p.Legal) {r : ParameterSignature} :
    r.Records p ↔ r = p.signature := by
  have hs : ∀ s, .key (.space s) ∈ p.symbols ↔ p.signature.space = some s := fun s =>
    Parameter.space_mem_symbols.trans (Parameter.mem_spaces.trans hp.getLast?_spaces.symm)
  have hq : ∀ q, .key (.qualifier q) ∈ p.symbols ↔ p.allQualifiers.contains q = true := fun q =>
    Parameter.qualifier_mem_symbols.trans List.contains_iff_mem.symm
  constructor
  · intro h
    have hspace : r.space = p.signature.space :=
      Option.ext fun s => (h.space s).trans (hs s)
    have hconst : r.isConst = p.signature.isConst :=
      Bool.eq_iff_iff.2 (h.isConst.trans (hq .const))
    have hvolatile : r.isVolatile = p.signature.isVolatile :=
      Bool.eq_iff_iff.2 (h.isVolatile.trans (hq .volatile))
    have hpointer : r.isPointer = p.signature.isPointer :=
      Bool.eq_iff_iff.2 (h.isPointer.trans Parameter.star_mem_symbols)
    obtain ⟨htype, hwidth⟩ := Prod.mk.inj h.type
    exact ParameterSignature.ext h.name hspace hconst hvolatile htype hwidth hpointer
  · rintro rfl
    exact ⟨rfl, fun s => (hs s).symm, (hq .const).symm, (hq .volatile).symm, rfl,
      Parameter.star_mem_symbols.symm⟩

theorem forall₂_records_iff {ps : List Parameter} (hp : ∀ p ∈ ps, p.Legal)
    {rs : List ParameterSignature} :
    List.Forall₂ ParameterSignature.Records rs ps ↔ rs = ps.map Parameter.signature := by
  induction ps generalizing rs with
  | nil => exact List.forall₂_nil_right_iff
  | cons p ps ih =>
    obtain ⟨hl, hls⟩ := List.forall_mem_cons.1 hp
    simp only [List.forall₂_cons_right_iff, ParameterSignature.records_iff hl, ih hls,
      List.map_cons]
    constructor
    · rintro ⟨_, _, rfl, rfl, rfl⟩
      rfl
    · rintro rfl
      exact ⟨_, _, rfl, rfl, rfl⟩

theorem KernelSignature.records_iff {d : DeclaredKernel} (hd : ∀ p ∈ d.parameters, p.Legal)
    {s : KernelSignature} {line : Nat} : s.Records line d ↔ s = d.signature line := by
  constructor
  · rintro ⟨hn, hl, hp⟩
    cases s
    rw [DeclaredKernel.signature, ← hn, ← hl, ← (forall₂_records_iff hd).1 hp]
  · rintro rfl
    exact ⟨rfl, rfl, (forall₂_records_iff hd).2 rfl⟩

end Records

theorem DeclaredKernel.symbols_unique {d : DeclaredKernel} {void void' : Bool} {us : List Token}
    (h : Reads (d.symbols void) us) (h' : Reads (d.symbols void') us) :
    d.symbols void = d.symbols void' := by
  have hlength : (d.symbols void).length = (d.symbols void').length :=
    h.length_eq.trans h'.length_eq.symm
  by_cases hp : d.parameters = []
  · cases void <;> cases void' <;> simp [DeclaredKernel.symbols, hp, parameterSymbols] at hlength ⊢
  · simp [DeclaredKernel.symbols, hp]

theorem DeclaredKernel.Derives.unique {d d' : DeclaredKernel} {void void' : Bool}
    {us us' ts : List Token} (h : d.Derives void us) (h' : d'.Derives void' us') (hu : us <+: ts)
    (hu' : us' <+: ts) : d = d' ∧ us = us' ∧ d.symbols void = d'.symbols void' := by
  obtain ⟨rest, rfl⟩ := hu
  obtain ⟨rest', e⟩ := hu'
  have hr := readDeclaration_of_reads h.reads h.legal rest
  have hr' := readDeclaration_of_reads h'.reads h'.legal rest'
  rw [e, hr] at hr'
  cases hr'
  have hs : us' = us := List.append_cancel_right e
  subst hs
  exact ⟨rfl, rfl, symbols_unique h.reads h'.reads⟩

end KernelWrap.Declaration
