import KernelWrap.Proofs.Derivations

/-! What the reader of lines accepts. The tree that is laid over the tokens of a declaration is built
where the declaration is read and fails where reading fails; it has the record of the declaration, so
that a line is accepted for the derivation it begins with and is never refused for its tree. -/

namespace KernelWrap.Declaration

section Trees

variable {ts rest : List Token}

def VoidSpelled (ts : List Token) : Prop := ∀ t ∈ ts, t.kind = .void → t.text = "void".toList

theorem voidSpelled_tokenize (s : List Char) : VoidSpelled (tokenize s) := by
  intro t ht hk
  obtain ⟨x, c, z, -, -, h⟩ := mem_tokenizeFrom ht
  rw [hk] at h
  unfold tokenKind at h
  split at h
  · have hw : keywords.lookup t.text = some .void := by
      cases e : keywords.lookup t.text with
      | none => rw [wordKind, e] at h; cases h
      | some k => rw [wordKind, e] at h; rw [show TokenKind.void = k from h]
    obtain ⟨before, after, e, -⟩ := List.lookup_eq_some_iff.1 hw
    have hm : (t.text, TokenKind.void) ∈ keywords := e ▸ List.mem_append_right _ List.mem_cons_self
    have hv : ∀ k ∈ keywords, k.2 = .void → k.1 = "void".toList := by decide
    exact hv _ hm rfl
  · split at h
    · cases h
    · unfold symbolKind at h
      repeat' split at h
      all_goals cases h

theorem leaves_append (us rest : List Token) : leaves (us ++ rest) rest = us.map .token := by
  rw [leaves, List.length_append, Nat.add_sub_cancel, List.take_left]

theorem treeTokens_append (as bs : List Tree) :
    treeTokens (as ++ bs) = treeTokens as ++ treeTokens bs := by
  induction as with
  | nil => rfl
  | cons a as ih => rw [List.cons_append, treeTokens, treeTokens, ih, List.append_assoc]

theorem treeTokens_leaves (us : List Token) : treeTokens (us.map .token) = us := by
  induction us with
  | nil => rfl
  | cons u us ih => rw [List.map_cons, treeTokens, ih]; rfl

theorem child?_leaves (kind : NodeKind) (us : List Token) (cs : List Tree) :
    child? kind (us.map .token ++ cs) = child? kind cs := by
  induction us with
  | nil => rfl
  | cons u us ih => exact ih

theorem baseName?_of_reads {b : BaseType} (h : Reads b.symbols ts) (hv : VoidSpelled ts) :
    baseName? ts = some b.typeName := by
  cases b with
  | named n =>
    obtain ⟨t, us, rfl, ⟨hk, hn⟩, h⟩ := reads_cons h
    have hu : t.kind ≠ .unsigned := fun e => TokenKind.noConfusion (hk.symm.trans e)
    rw [reads_nil h, baseName?, if_neg hu]
    exact congrArg (some <| String.ofList ·) hn
  | void =>
    obtain ⟨t, us, rfl, hk, h⟩ := reads_cons h
    have hu : t.kind ≠ .unsigned := fun e => TokenKind.noConfusion (hk.symm.trans e)
    rw [reads_nil h, baseName?, if_neg hu, hv t List.mem_cons_self hk]
    rfl
  | unsigned word =>
    cases word with
    | none =>
      obtain ⟨t, us, rfl, hk, h⟩ := reads_cons h
      have hu : t.kind = .unsigned := hk
      rw [reads_nil h, baseName?, if_pos hu]
      rfl
    | some w =>
      obtain ⟨t, us, rfl, hk, h⟩ := reads_cons h
      obtain ⟨u, us, rfl, ⟨-, hn⟩, h⟩ := reads_cons h
      have hu : t.kind = .unsigned := hk
      rw [reads_nil h, baseName?, if_pos hu]
      exact congrArg (some <| "u" ++ String.ofList ·) hn

theorem pointerNode_eq {p : Option (List TypeQualifier)} (h : readPointer ts = .ok (p, rest)) :
    pointerNode ts rest = if p.isSome then [.node .pointer (leaves ts rest)] else [] := by
  have hs : startsAtStar ts = p.isSome := by
    unfold readPointer at h
    split at h
    · next t ts =>
      split at h
      · next hk =>
        split at h
        · cases h
        · cases h
          exact beq_iff_eq.2 hk
      · next hk =>
        cases h
        exact beq_false_of_ne hk
    · cases h
      rfl
  rw [pointerNode, hs]

/-- Two readings that end together: both fail alike, or both leave the same tokens. -/
inductive Together {α β : Type} (R : α → β → Prop) :
    Except Failure (α × List Token) → Except Failure (β × List Token) → Prop
  | error (f : Failure) : Together R (.error f) (.error f)
  | ok {a : α} {b : β} (h : R a b) (rest : List Token) : Together R (.ok (a, rest)) (.ok (b, rest))

namespace Together

variable {α β γ δ : Type} {R : α → β → Prop} {S : γ → δ → Prop}

theorem bind {x : Except Failure (α × List Token)} {y : Except Failure (β × List Token)}
    {f : α × List Token → Except Failure (γ × List Token)}
    {g : β × List Token → Except Failure (δ × List Token)} (hx : Together R x y)
    (h : ∀ a b rest, R a b → x = .ok (a, rest) → Together S (f (a, rest)) (g (b, rest))) :
    Together S (x >>= f) (y >>= g) := by
  cases hx with
  | error e => exact .error e
  | ok hr rest => exact h _ _ rest hr rfl

theorem bind_same {x : Except Failure (α × List Token)}
    {f : α × List Token → Except Failure (γ × List Token)}
    {g : α × List Token → Except Failure (δ × List Token)}
    (h : ∀ a rest, x = .ok (a, rest) → Together S (f (a, rest)) (g (a, rest))) :
    Together S (x >>= f) (x >>= g) := by
  cases x with
  | error e => exact .error e
  | ok p => exact h p.1 p.2 rfl

theorem map {x : Except Failure (α × List Token)} {y : Except Failure (β × List Token)}
    {f : α → γ} {g : β → δ} (hx : Together R x y) (h : ∀ a b, R a b → S (f a) (g b)) :
    Together S (x.map fun p => (f p.1, p.2)) (y.map fun p => (g p.1, p.2)) := by
  cases hx with
  | error e => exact .error e
  | ok hr rest => exact .ok (h _ _ hr) rest

theorem exists_of_ok {a : α} {y : Except Failure (β × List Token)}
    (h : Together R (.ok (a, rest)) y) : ∃ b, y = .ok (b, rest) ∧ R a b := by
  cases h with
  | ok hr => exact ⟨_, rfl, hr⟩

theorem eq_of_error {f : Failure} {y : Except Failure (β × List Token)}
    (h : Together R (.error f) y) : y = .error f := by
  cases h
  rfl

end Together

def parameterNodes (marks base quals : List Token) (pointer : Option (List Token)) (name : Token) :
    List Tree :=
  [.node .qualifiers (marks.map .token),
    .node .type (.node .base (base.map .token) :: quals.map .token ++
      (pointer.map fun us => .node .pointer (us.map .token)).toList),
    .node .name [.token name]]

theorem treeTokens_parameterNodes (marks base quals : List Token) (pointer : Option (List Token))
    (name : Token) : treeTokens (parameterNodes marks base quals pointer name) =
      marks ++ (base ++ (quals ++ (pointer.getD [] ++ [name]))) := by
  cases pointer <;>
    simp [parameterNodes, treeTokens, Tree.tokens, treeTokens_append, treeTokens_leaves]

theorem ofTrees_parameterNodes {p : Parameter} {marks base quals : List Token}
    {pointer : Option (List Token)} {name : Token}
    (hm : Reads (p.marks.map fun m => .key m.kind) marks) (hb : Reads p.base.symbols base)
    (hq : Reads (qualifierSymbols p.qualifiers) quals)
    (hs : Reads (pointerSymbols p.pointer) (pointer.getD []))
    (hp : pointer.isSome = p.pointer.isSome) (hk : name.kind = .word) (hn : name.text = p.name)
    (hv : VoidSpelled base) :
    ParameterSignature.ofTrees (parameterNodes marks base quals pointer name) =
      .ok p.signature := by
  have hname : nameOf? (parameterNodes marks base quals pointer name) =
      some (String.ofList p.name) := by
    simp [nameOf?, child?, parameterNodes, treeTokens, Tree.tokens, hk, hn]
  have hbase : (child? .base (.node .base (base.map .token) :: quals.map .token ++
      (pointer.map fun us => Tree.node .pointer (us.map .token)).toList)).bind
        (fun ds => baseName? (treeTokens ds)) = some p.base.typeName := by
    show baseName? (treeTokens (base.map .token)) = some p.base.typeName
    rw [treeTokens_leaves, baseName?_of_reads hb hv]
  have hpointer : (child? .pointer (.node .base (base.map .token) :: quals.map .token ++
      (pointer.map fun us => Tree.node .pointer (us.map .token)).toList)).isSome =
        p.pointer.isSome := by
    show (child? .pointer (quals.map .token ++ _)).isSome = p.pointer.isSome
    rw [child?_leaves, ← hp]
    cases pointer <;> rfl
  have hkinds : (treeTokens (parameterNodes marks base quals pointer name)).map Token.kind =
      p.symbols.map Symbol.kind := by
    rw [treeTokens_parameterNodes]
    exact map_kind_of_reads
      (hm.append (hb.append (hq.append (hs.append (.cons ⟨hk, hn⟩ .nil)))))
  have hcontains : ∀ q, (p.symbols.map Symbol.kind).contains (.qualifier q) =
      p.allQualifiers.contains q := by
    intro q
    rw [Bool.eq_iff_iff, List.contains_iff_mem, List.contains_iff_mem,
      mem_kinds TokenKind.noConfusion, Parameter.qualifier_mem_symbols]
  have htype : child? .type (parameterNodes marks base quals pointer name) =
      some (.node .base (base.map .token) :: quals.map .token ++
        (pointer.map fun us => Tree.node .pointer (us.map .token)).toList) := rfl
  simp only [ParameterSignature.ofTrees, hname, htype, hbase, hkinds, hpointer, hcontains,
    Parameter.filterMap_space?]
  rfl

def Tree.IsParameter (p : Parameter) (t : Tree) : Prop :=
  ∃ cs, t = .node .parameter cs ∧ ParameterSignature.ofTrees cs = .ok p.signature

theorem VoidSpelled.left {us : List Token} (h : VoidSpelled (us ++ rest)) : VoidSpelled us :=
  fun t ht => h t (List.mem_append_left _ ht)

theorem VoidSpelled.right {us : List Token} (h : VoidSpelled (us ++ rest)) : VoidSpelled rest :=
  fun t ht => h t (List.mem_append_right _ ht)

theorem together_parameter (hv : VoidSpelled ts) :
    Together Tree.IsParameter (readParameter ts) (buildParameter ts) := by
  refine .bind_same fun marks marked hmarks => .bind_same fun base based hbase => ?_
  refine .bind_same fun pointer pointed hpointer => .bind_same fun name rest hname => .ok ?_ rest
  obtain ⟨us₁, rfl, h₁, -⟩ := reads_of_readMarks hmarks
  obtain ⟨us₂, rfl, h₂, -⟩ := reads_of_readBase hbase
  obtain ⟨us₃, hs, h₃⟩ := reads_of_readQualifiers based
  obtain ⟨us₄, hs', h₄⟩ := reads_of_readPointer hpointer
  obtain ⟨rfl, hk⟩ := expect_eq_ok hname
  generalize readQualifiers based = r at *
  obtain ⟨quals, qualified⟩ := r
  simp only at hs hs' h₃ hpointer ⊢
  subst hs hs'
  have hleaf : leaves (name :: rest) rest = [.token name] := leaves_append [name] rest
  refine ⟨parameterNodes us₁ us₂ us₃ (pointer.map fun _ => us₄) name, ?_,
    ofTrees_parameterNodes (p := ⟨marks, base, quals, pointer, name.text⟩) h₁ h₂ h₃ ?_ ?_ hk rfl
      hv.right.left⟩
  · rw [leaves_append, leaves_append, leaves_append, pointerNode_eq hpointer, leaves_append,
      hleaf]
    cases pointer <;> rfl
  · cases pointer with
    | none => exact .nil
    | some qs => exact h₄
  · cases pointer <;> rfl

theorem buildParameters_of_error {f : Failure} (h : buildParameter ts = .error f) :
    buildParameters ts = .error f := by
  rw [buildParameters]
  split
  · next e => rw [h] at e; cases e; rfl
  · next e => rw [h] at e; cases e

theorem buildParameters_of_cons {t : Tree} {u : Token}
    (h : buildParameter ts = .ok (t, u :: rest)) :
    buildParameters ts = if u.kind = .comma then
      (buildParameters rest).map fun q => (t :: .token u :: q.1, q.2)
      else .ok ([t], u :: rest) := by
  rw [buildParameters]
  split
  · next e => rw [h] at e; cases e
  · next e => rw [h] at e; cases e; rfl

theorem buildParameters_of_nil {t : Tree} (h : buildParameter ts = .ok (t, [])) :
    buildParameters ts = .ok ([t], []) := by
  rw [buildParameters]
  split
  · next e => rw [h] at e; cases e
  · next e => rw [h] at e; cases e; rfl

def RecordsOf (ps : List Parameter) (cs : List Tree) : Prop :=
  parameterRecords cs = .ok (ps.map Parameter.signature)

theorem RecordsOf.nil : RecordsOf [] [] := rfl

theorem RecordsOf.leaf (t : Token) {ps : List Parameter} {cs : List Tree} (h : RecordsOf ps cs) :
    RecordsOf ps (.token t :: cs) := h

theorem RecordsOf.concat_leaf (t : Token) {ps : List Parameter} {cs : List Tree}
    (h : RecordsOf ps cs) : RecordsOf ps (cs ++ [.token t]) := by
  have hl : parameterRecords (cs ++ [.token t]) = parameterRecords cs := by
    clear h
    fun_induction parameterRecords cs with
    | case1 => rfl
    | case2 ds cs ih => rw [List.cons_append, parameterRecords, ih]
    | case3 c cs hc ih => rw [List.cons_append, parameterRecords.eq_3 _ _ hc, ih]
  rw [RecordsOf, hl, h]

theorem Tree.IsParameter.recordsOf {p : Parameter} {t : Tree} (h : t.IsParameter p)
    {ps : List Parameter} {cs : List Tree} (hr : RecordsOf ps cs) : RecordsOf (p :: ps) (t :: cs) := by
  obtain ⟨ds, rfl, hd⟩ := h
  rw [RecordsOf, parameterRecords, hd, hr]
  rfl

theorem together_parameters (hv : VoidSpelled ts) :
    Together RecordsOf (readParameters ts) (buildParameters ts) := by
  fun_induction readParameters ts with
  | case1 ts f hf =>
    have ht := together_parameter hv
    rw [hf] at ht
    rw [buildParameters_of_error ht.eq_of_error]
    exact .error f
  | case2 ts p t rest' hp hc _ _ ih =>
    obtain ⟨-, us, rfl, -⟩ := reads_of_readParameter hp
    have ht := together_parameter hv
    rw [hp] at ht
    obtain ⟨c, hb, hr⟩ := ht.exists_of_ok
    rw [buildParameters_of_cons hb, if_pos hc]
    exact (ih fun v hv' => hv v (by simp [hv'])).map fun ps cs h => hr.recordsOf (.leaf t h)
  | case3 ts p t rest' hp hc =>
    have ht := together_parameter hv
    rw [hp] at ht
    obtain ⟨c, hb, hr⟩ := ht.exists_of_ok
    rw [buildParameters_of_cons hb, if_neg hc]
    exact .ok (hr.recordsOf .nil) _
  | case4 ts p hp =>
    have ht := together_parameter hv
    rw [hp] at ht
    obtain ⟨c, hb, hr⟩ := ht.exists_of_ok
    rw [buildParameters_of_nil hb]
    exact .ok (hr.recordsOf .nil) _

theorem together_parameterList (hv : VoidSpelled ts) :
    Together RecordsOf (readParameterList ts) (buildParameterList ts) := by
  match ts, hv with
  | [], hv => exact together_parameters hv
  | [t], hv =>
    by_cases ht : t.kind = .closeParen
    · simp only [readParameterList, buildParameterList, if_pos ht]
      exact .ok .nil _
    · simp only [readParameterList, buildParameterList, if_neg ht]
      exact together_parameters hv
  | t :: u :: more, hv =>
    by_cases ht : t.kind = .closeParen
    · simp only [readParameterList, buildParameterList, if_pos ht]
      exact .ok .nil _
    · by_cases hu : t.kind = .void ∧ u.kind = .closeParen
      · simp only [readParameterList, buildParameterList, if_neg ht, if_pos hu]
        exact .ok (.leaf t .nil) _
      · simp only [readParameterList, buildParameterList, if_neg ht, if_neg hu]
        exact together_parameters hv

theorem together_declaration (hv : VoidSpelled ts) (line : Nat) :
    Together (fun d t => KernelSignature.ofTree line t = .ok (d.signature line))
      (readDeclaration ts) (buildDeclaration ts) := by
  refine .bind_same fun kernel ts₁ h₁ => .bind_same fun void ts₂ h₂ => ?_
  refine .bind_same fun name ts₃ h₃ => .bind_same fun opening ts₄ h₄ => ?_
  obtain ⟨rfl, -⟩ := expect_eq_ok h₁
  obtain ⟨rfl, -⟩ := expect_eq_ok h₂
  obtain ⟨rfl, hk⟩ := expect_eq_ok h₃
  obtain ⟨rfl, -⟩ := expect_eq_ok h₄
  have hv' : VoidSpelled ts₄ := fun t ht => hv t (by simp [ht])
  refine (together_parameterList hv').bind fun ps cs ts₅ hr _ => ?_
  refine .bind_same fun closing ts₆ h₆ => .ok ?_ ts₆
  have hname : nameOf? [.token kernel, .token void, .node .name [.token name],
      .node .parameterList (.token opening :: cs ++ [.token closing])] =
        some (String.ofList name.text) := by
    simp [nameOf?, child?, treeTokens, Tree.tokens, hk]
  have hlist : RecordsOf ps (.token opening :: cs ++ [.token closing]) :=
    RecordsOf.concat_leaf closing (.leaf opening hr)
  have hnode : KernelSignature.ofTree line (.node .root [.node .declaration [.token kernel,
      .token void, .node .name [.token name],
      .node .parameterList (.token opening :: cs ++ [.token closing])]]) =
        .ok ⟨String.ofList name.text, line, ps.map Parameter.signature⟩ := by
    show KernelSignature.ofNode line .declaration _ = _
    rw [KernelSignature.ofNode, if_pos rfl, hname]
    exact congrArg (Except.map fun ps => KernelSignature.mk (String.ofList name.text) line ps) hlist
  exact hnode

end Trees

section Lines

variable {text : List Char} {line : Nat}

theorem fromKernel_suffix (ts : List Token) : fromKernel ts <:+ ts := List.dropWhile_suffix _

theorem voidSpelled_fromKernel (text : List Char) : VoidSpelled (fromKernel (tokenize text)) :=
  fun t ht => voidSpelled_tokenize text t ((fromKernel_suffix _).subset ht)

theorem fromKernel_eq_nil {ts : List Token} :
    fromKernel ts = [] ↔ ∀ t ∈ ts, t.kind ≠ .kernel := by
  simp only [fromKernel, List.dropWhile_eq_nil_iff, bne_iff_ne]

theorem readLine_of_nil (h : fromKernel (tokenize text) = []) : readLine text line = .ok none := by
  rw [readLine, readTokens, h]

theorem readLine_of_ne_nil (h : fromKernel (tokenize text) ≠ []) :
    readLine text line = match readDeclaration (fromKernel (tokenize text)) with
      | .ok (d, _) => .ok (some (d.signature line))
      | .error f => .error (.ofFailure line (tokenize text) f) := by
  rw [readLine, readTokens]
  cases e : fromKernel (tokenize text) with
  | nil => exact absurd e h
  | cons t ts => rfl

theorem readLine_eq_none :
    readLine text line = .ok none ↔ ∀ t ∈ tokenize text, t.kind ≠ .kernel := by
  rw [← fromKernel_eq_nil]
  by_cases h : fromKernel (tokenize text) = []
  · exact iff_of_true (readLine_of_nil h) h
  · refine iff_of_false (fun he => ?_) h
    rw [readLine_of_ne_nil h] at he
    split at he <;> cases he

theorem readLine_eq_some {s : KernelSignature} : readLine text line = .ok (some s) ↔
    ∃ d rest, readDeclaration (fromKernel (tokenize text)) = .ok (d, rest) ∧
      s = d.signature line := by
  by_cases h : fromKernel (tokenize text) = []
  · rw [readLine_of_nil h, h]
    constructor
    · rintro ⟨⟩
    · rintro ⟨d, rest, ⟨⟩, -⟩
  · rw [readLine_of_ne_nil h]
    constructor
    · intro hs
      split at hs
      · next d rest hd =>
        cases hs
        exact ⟨d, rest, hd, rfl⟩
      · cases hs
    · rintro ⟨d, rest, hd, rfl⟩
      rw [hd]

/-- Reading a line by way of the tree of its declaration gives what is read without it: the record of
a tree that was laid over the tokens is always found. -/
theorem readLineTree_eq (text : List Char) (line : Nat) :
    readLineTree text line = (readLine text line).mapError .unread := by
  have ht := together_declaration (voidSpelled_fromKernel text) line
  rw [readLineTree, readLine, readTokens]
  cases e : fromKernel (tokenize text) with
  | nil => rfl
  | cons t ts =>
    rw [e] at ht
    cases hd : readDeclaration (t :: ts) with
    | error f =>
      rw [hd] at ht
      simp only [hd, ht.eq_of_error]
      rfl
    | ok p =>
      rw [hd] at ht
      obtain ⟨tree, hb, hr⟩ := ht.exists_of_ok
      simp only [hd, hb, hr]
      rfl

/-- The reader of lines accepts the grammar. A line without the keyword has no signature. Otherwise it
has one just when the tokens from the first keyword on begin with the derivation of a declaration,
which is the only one; the signature is the record of that declaration. Going by way of a tree of the
declaration changes nothing, so that no tree is without a record. -/
theorem readLine_accepts (text : List Char) (line : Nat) :
    (readLine text line = .ok none ↔ ∀ t ∈ tokenize text, t.kind ≠ .kernel) ∧
      (∀ s, readLine text line = .ok (some s) ↔ ∃ d void us,
        us <+: fromKernel (tokenize text) ∧ d.Derives void us ∧ s.Records line d) ∧
      (∀ (d d' : DeclaredKernel) void void' us us', us <+: fromKernel (tokenize text) →
        us' <+: fromKernel (tokenize text) → d.Derives void us → d'.Derives void' us' →
          d = d' ∧ us = us' ∧ d.symbols void = d'.symbols void') ∧
      readLineTree text line = (readLine text line).mapError .unread := by
  refine ⟨readLine_eq_none, fun s => ?_, fun _ _ _ _ _ _ hu hu' h h' => h.unique h' hu hu',
    readLineTree_eq text line⟩
  rw [readLine_eq_some]
  constructor
  · rintro ⟨d, rest, hd, rfl⟩
    obtain ⟨void, us, hs, h⟩ := derives_of_readDeclaration hd
    exact ⟨d, void, us, ⟨rest, hs.symm⟩, h, (KernelSignature.records_iff h.legal).2 rfl⟩
  · rintro ⟨d, void, us, ⟨rest, hs⟩, h, hr⟩
    exact ⟨d, rest, hs ▸ readDeclaration_of_reads h.reads h.legal rest,
      (KernelSignature.records_iff h.legal).1 hr⟩

end Lines

end KernelWrap.Declaration
