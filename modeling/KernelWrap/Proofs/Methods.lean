import KernelWrap.Host.TokenStream

/-! Reading methods off generated tokens. The reader knows nothing of syntax trees: a method is the
word `fn`, a name, its parameters in parentheses and the next content in braces; parameters stand
between commas and statements between semicolons. What it reads off the tokens of a function are the
parts that the function was written from. -/

namespace KernelWrap.Host
open Token

structure Method where
  name : Name
  params : List (List Token)
  body : List (List Token)
  deriving Repr

namespace Token

def isOperator (s : String) : Token → Bool
  | operator t => t == s
  | _ => false

def isWord (s : String) : Token → Bool
  | name n => n == .plain s
  | _ => false

def content? (b : Bracket) : Token → Option (List Token)
  | group b' ts => if b' = b then some ts else none
  | _ => none

end Token

/-- The parts of a token list between separators. Nothing is no part, so a separator at the end
begins none. -/
def parts (s : String) (ts : List Token) : List (List Token) :=
  (ts.splitOnP (isOperator s)).filter fun p => !p.isEmpty

def readBody? : List Token → Option (List Token × List Token)
  | [] => none
  | t :: ts =>
    match t.content? .brace with
    | some body => some (body, ts)
    | none => readBody? ts

def readMethod? (t : Token) (ts : List Token) : Option (Method × List Token) :=
  if t.isWord "fn" then
    match ts with
    | .name n :: .group .paren ps :: rest =>
      (readBody? rest).map fun b => (⟨n, parts "," ps, parts ";" b.1⟩, b.2)
    | _ => none
  else none

theorem length_of_readBody? {ts : List Token} {b : List Token × List Token}
    (h : readBody? ts = some b) : b.2.length < ts.length := by
  induction ts with
  | nil => cases h
  | cons t ts ih =>
    rw [readBody?] at h
    split at h
    · cases h
      exact Nat.lt_succ_self _
    · exact Nat.lt_succ_of_lt (ih h)

theorem length_of_readMethod? {t : Token} {ts : List Token} {m : Method × List Token}
    (h : readMethod? t ts = some m) : m.2.length < ts.length := by
  unfold readMethod? at h
  split at h
  · split at h
    · next n ps rest =>
      obtain ⟨b, hb, rfl⟩ := Option.map_eq_some_iff.1 h
      have hl := length_of_readBody? hb
      exact Nat.lt_succ_of_lt (Nat.lt_succ_of_lt hl)
    · cases h
  · cases h

def methodsIn : List Token → List Method
  | [] => []
  | t :: ts =>
    match _h : readMethod? t ts with
    | some m => m.1 :: methodsIn m.2
    | none => methodsIn ts
  termination_by ts => ts.length
  decreasing_by
    · exact Nat.lt_succ_of_lt (length_of_readMethod? _h)
    · exact Nat.lt_succ_self _

def methodsOf (ts : List Token) : List Method :=
  (ts.filterMap (content? .brace)).flatMap methodsIn

section Parts

theorem parts_nil (s : String) : parts s [] = [] := rfl

theorem parts_append (s : String) (xs ys : List Token) :
    parts s (xs ++ operator s :: ys) = parts s xs ++ parts s ys := by
  have hs : isOperator s (operator s) = true := beq_self_eq_true s
  rw [parts, List.splitOnP_append_cons xs ys hs, List.filter_append]
  rfl

theorem parts_of_forall {s : String} {xs : List Token} (h : ∀ t ∈ xs, isOperator s t = false)
    (hn : xs ≠ []) : parts s xs = [xs] := by
  rw [parts, List.splitOnP_eq_singleton h]
  refine List.filter_cons_of_pos ?_
  rw [Bool.not_eq_true', List.isEmpty_eq_false_iff]
  exact hn

def IsPart (s : String) (xs : List Token) : Prop := xs ≠ [] ∧ ∀ t ∈ xs, isOperator s t = false

theorem IsPart.parts_eq {s : String} {xs : List Token} (h : IsPart s xs) : parts s xs = [xs] :=
  parts_of_forall h.2 h.1

theorem parts_flatMap {s : String} {xs : List (List Token)} (h : ∀ x ∈ xs, IsPart s x)
    (ys : List Token) :
    parts s (xs.flatMap (fun x => x ++ [operator s]) ++ ys) = xs ++ parts s ys := by
  induction xs with
  | nil => rfl
  | cons x xs ih =>
    have hx := (h x List.mem_cons_self).parts_eq
    rw [List.flatMap_cons, List.append_assoc, List.append_assoc, List.singleton_append, parts_append,
      hx, ih fun y hy => h y (List.mem_cons_of_mem x hy)]
    rfl

theorem parts_endCommas {xs : List (List Token)} (h : ∀ x ∈ xs, IsPart "," x) :
    parts "," (endCommas xs) = xs := by
  have hp := parts_flatMap h []
  rwa [List.append_nil, parts_nil, List.append_nil] at hp

end Parts

section Plain

theorem mem_nameTokens {ns : List Name} {t : Token} (h : t ∈ nameTokens ns) :
    t = sep ∨ ∃ n, t = .name n := by
  fun_induction nameTokens ns with
  | case1 => cases h
  | case2 n => exact .inr ⟨n, List.mem_singleton.1 h⟩
  | case3 n ns _ ih =>
    rcases List.mem_cons.1 h with rfl | h
    · exact .inr ⟨n, rfl⟩
    rcases List.mem_cons.1 h with rfl | h
    · exact .inl rfl
    · exact ih h

theorem mem_pathTokens {p : NamePath} {t : Token} (h : t ∈ p.tokens) :
    t = sep ∨ ∃ n, t = .name n := by
  rcases List.mem_append.1 h with h | h
  · split at h
    · exact .inl (List.mem_singleton.1 h)
    · cases h
  · exact mem_nameTokens h

theorem isOperator_of_mem_pathTokens {p : NamePath} {s : String} (hs : s ≠ "::") :
    ∀ t ∈ p.tokens, isOperator s t = false := by
  intro t ht
  rcases mem_pathTokens ht with rfl | ⟨n, rfl⟩
  · exact beq_false_of_ne hs.symm
  · rfl

/-- No braces among the tokens; what is inside other brackets does not count. -/
def Unbraced (ts : List Token) : Prop := ∀ t ∈ ts, t.content? .brace = none

theorem unbraced_nil : Unbraced [] := fun _ h => absurd h List.not_mem_nil

theorem unbraced_cons {t : Token} {ts : List Token} :
    Unbraced (t :: ts) ↔ t.content? .brace = none ∧ Unbraced ts := List.forall_mem_cons

theorem unbraced_append {ts us : List Token} :
    Unbraced (ts ++ us) ↔ Unbraced ts ∧ Unbraced us := List.forall_mem_append

theorem unbraced_path (p : NamePath) : Unbraced p.tokens := by
  intro t ht
  rcases mem_pathTokens ht with rfl | ⟨n, rfl⟩ <;> rfl

mutual

theorem unbraced_type : (t : Ty) → Unbraced t.tokens
  | .named path args => by
    rw [Ty.tokens, unbraced_append]
    refine ⟨unbraced_path path, ?_⟩
    split
    · exact unbraced_nil
    · rw [List.cons_append, unbraced_cons, unbraced_append]
      exact ⟨rfl, unbraced_types args, unbraced_cons.2 ⟨rfl, unbraced_nil⟩⟩
  | .infer => unbraced_cons.2 ⟨rfl, unbraced_nil⟩
  | .ref life target => by
    rw [Ty.tokens, List.cons_append, unbraced_cons, unbraced_append]
    refine ⟨rfl, ?_, unbraced_type target⟩
    cases life with
    | none => exact unbraced_nil
    | some l => exact unbraced_cons.2 ⟨rfl, unbraced_nil⟩
  | .array _ _ => unbraced_cons.2 ⟨rfl, unbraced_nil⟩
  | .slice _ => unbraced_cons.2 ⟨rfl, unbraced_nil⟩
  | .unit => unbraced_cons.2 ⟨rfl, unbraced_nil⟩

theorem unbraced_types : (ts : List Ty) → Unbraced (tyTokens ts)
  | [] => unbraced_nil
  | t :: ts => by
    rw [tyTokens, unbraced_append]
    exact ⟨unbraced_type t, unbraced_moreTypes ts⟩

theorem unbraced_moreTypes : (ts : List Ty) → Unbraced (moreTyTokens ts)
  | [] => unbraced_nil
  | t :: ts => by
    rw [moreTyTokens, List.cons_append, unbraced_cons, unbraced_append]
    exact ⟨rfl, unbraced_type t, unbraced_moreTypes ts⟩

end

theorem mem_attributeTokens {as : List Attribute} {t : Token}
    (h : t ∈ as.flatMap Attribute.tokens) : t = operator "#" ∨ ∃ ts, t = squares ts := by
  obtain ⟨a, -, ha⟩ := List.mem_flatMap.1 h
  have he : ∃ ts, a.tokens = [operator "#", squares ts] := by cases a <;> exact ⟨_, rfl⟩
  obtain ⟨ts, he⟩ := he
  rw [he, List.mem_cons, List.mem_singleton] at ha
  exact ha.imp_right fun e => ⟨ts, e⟩

theorem unbraced_attributes (as : List Attribute) : Unbraced (as.flatMap Attribute.tokens) := by
  intro t ht
  rcases mem_attributeTokens ht with rfl | ⟨ts, rfl⟩ <;> rfl

end Plain

section Reading

def Function.method (f : Function) : Method where
  name := .plain f.name
  params := parts "," <|
    let params := f.receiver.tokens ++ f.params.map Param.tokens
    if f.endComma then endCommas params else joinCommas params
  body := parts ";" f.bodyTokens

theorem methodsIn_nil : methodsIn [] = [] := by rw [methodsIn]

theorem methodsIn_of_some {t : Token} {ts rest : List Token} {m : Method}
    (h : readMethod? t ts = some (m, rest)) : methodsIn (t :: ts) = m :: methodsIn rest := by
  rw [methodsIn]
  split
  · next e => cases h.symm.trans e; rfl
  · next e => cases h.symm.trans e

theorem methodsIn_of_none {t : Token} {ts : List Token} (h : readMethod? t ts = none) :
    methodsIn (t :: ts) = methodsIn ts := by
  rw [methodsIn]
  split
  · next e => cases h.symm.trans e
  · rfl

theorem readMethod?_of_isWord {t : Token} (h : t.isWord "fn" = false) (ts : List Token) :
    readMethod? t ts = none := by
  unfold readMethod?
  exact if_neg (by rw [h]; exact Bool.false_ne_true)

theorem methodsIn_append {ts : List Token} (h : ∀ t ∈ ts, t.isWord "fn" = false)
    (rest : List Token) : methodsIn (ts ++ rest) = methodsIn rest := by
  induction ts with
  | nil => rfl
  | cons t ts ih =>
    have ht := readMethod?_of_isWord (h t List.mem_cons_self) (ts ++ rest)
    rw [List.cons_append, methodsIn_of_none ht]
    exact ih fun u hu => h u (List.mem_cons_of_mem t hu)

theorem methodsIn_of_noParens {ts : List Token} (h : ∀ t ∈ ts, t.content? .paren = none) :
    methodsIn ts = [] := by
  induction ts with
  | nil => exact methodsIn_nil
  | cons t ts ih =>
    have hts : ∀ u ∈ ts, u.content? .paren = none := fun u hu => h u (List.mem_cons_of_mem t hu)
    have hn : readMethod? t ts = none := by
      unfold readMethod?
      split
      · split
        · next n ps rest =>
          have := hts (.group .paren ps) (by simp)
          cases this
        · rfl
      · rfl
    rw [methodsIn_of_none hn]
    exact ih hts

theorem readBody?_append {ts : List Token} (h : Unbraced ts) (body rest : List Token) :
    readBody? (ts ++ braces body :: rest) = some (body, rest) := by
  induction ts with
  | nil => rfl
  | cons t ts ih =>
    obtain ⟨ht, hts⟩ := unbraced_cons.1 h
    rw [List.cons_append, readBody?, ht]
    exact ih hts

theorem methodsIn_function (f : Function) (rest : List Token) :
    methodsIn (f.tokens ++ rest) = f.method :: methodsIn rest := by
  have ha : ∀ t ∈ f.attributes.flatMap Attribute.tokens ++
      (if f.exported then [word "pub"] else []), t.isWord "fn" = false := by
    intro t ht
    rcases List.mem_append.1 ht with ht | ht
    · rcases mem_attributeTokens ht with rfl | ⟨ts, rfl⟩ <;> rfl
    · split at ht
      · rw [List.mem_singleton.1 ht]
        decide
      · cases ht
  -- The body is the next content in braces, because the type of the result has none.
  have hr : Unbraced (operator "->" :: f.returns.tokens) :=
    unbraced_cons.2 ⟨rfl, unbraced_type f.returns⟩
  have hb := readBody?_append hr f.bodyTokens rest
  have hf : f.tokens ++ rest = (f.attributes.flatMap Attribute.tokens ++
      (if f.exported then [word "pub"] else [])) ++ word "fn" :: word f.name ::
      parens (if f.endComma then endCommas (f.receiver.tokens ++ f.params.map Param.tokens)
        else joinCommas (f.receiver.tokens ++ f.params.map Param.tokens)) ::
      (operator "->" :: f.returns.tokens ++ braces f.bodyTokens :: rest) := by
    simp only [Function.tokens, Function.signatureTokens, List.append_assoc, List.cons_append,
      List.nil_append]
  rw [hf, methodsIn_append ha]
  refine methodsIn_of_some ?_
  unfold readMethod?
  rw [if_pos (by decide)]
  exact congrArg (Option.map _) hb

theorem methodsIn_functions (fs : List Function) :
    methodsIn (fs.flatMap Function.tokens) = fs.map Function.method := by
  induction fs with
  | nil => exact methodsIn_nil
  | cons f fs ih => rw [List.flatMap_cons, methodsIn_function, ih, List.map_cons]

end Reading

end KernelWrap.Host
