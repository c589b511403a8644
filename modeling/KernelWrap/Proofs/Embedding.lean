import KernelWrap.Binding
import KernelWrap.Proofs.Marshalling
import KernelWrap.Proofs.Unquoting

/-! What generated code says of the kernels it wraps, read off its tokens. The reader finds the
implementations of the wrapper interface by what stands before their braces, the constants by their
names and the source by the call that `kernel_source` consists of, and takes literals by their text.
A binding says of every kernel the name it was declared with, the paths of the unit and, when
sources are embedded, the text of the unit as it is. -/

namespace KernelWrap
open Host Token
open Text (unquote? unquote?_quoted)

section Reading

def Host.Token.literal? (t : Token) : Option String :=
  match unquote? t.render.toList with
  | some (s, []) => some s
  | _ => none

def blocks (before : List Token) : List Token → List (List Token × List Token)
  | [] => []
  | t :: ts =>
    match t.content? .brace with
    | some content => (before, content) :: blocks [] ts
    | none => blocks (before ++ [t]) ts

def implementor? (ts : List Token) : Option Name :=
  match ts.reverse with
  | .name n :: u :: v :: _ => if u.isWord "for" && v.isWord "KernelWrapper" then some n else none
  | _ => none

def assigned? : List Token → Option String
  | [] => none
  | t :: ts => if t.isOperator "=" then ts.head?.bind Token.literal? else assigned? ts

def constant? (n : String) : List Token → Option String
  | t :: u :: ts => if t.isWord "const" && u.isWord n then assigned? ts else constant? n (u :: ts)
  | _ => none

/-- The only argument of a call of `KernelSource::Embedded` that makes up a body. -/
def embedded? (body : List (List Token)) : Option String :=
  match body.map List.reverse with
  | [.group .paren [t] :: u :: v :: w :: _] =>
    if u.isWord "Embedded" && v.isOperator "::" && w.isWord "KernelSource" then t.literal? else none
  | _ => none

structure Description where
  kernelName : String
  kernelPath : String
  originalPath : String
  source : String
  deriving Repr, DecidableEq

def description? (content : List Token) : Option Description :=
  match constant? "KERNEL_NAME" content, constant? "KERNEL_PATH" content,
      constant? "ORIGINAL_PATH" content, named "kernel_source" (methodsIn content) with
  | some n, some p, some o, [m] => (embedded? m.body).map fun s => ⟨n, p, o, s⟩
  | _, _, _, _ => none

/-- The types that implement the wrapper interface, in order, each with what it says of its kernel;
nothing stands for what cannot be read. The tokens `before` have no braces behind them yet. -/
def descriptions (before ts : List Token) : List (Name × Option Description) :=
  (blocks before ts).filterMap fun b => (implementor? b.1).map fun n => (n, description? b.2)

end Reading

section Blocks

variable {ts : List Token}

theorem literal?_text (s : String) : (Token.text s).literal? = some s := by
  have h := unquote?_quoted s []
  rw [List.append_nil] at h
  rw [Token.literal?, Token.render, h]

theorem unbraced_of_all (h : ts.all (fun t => (t.content? .brace).isNone) = true) : Unbraced ts :=
  fun t ht => Option.isNone_iff_eq_none.1 (List.all_eq_true.1 h t ht)

theorem blocks_append (h : Unbraced ts) (before rest : List Token) :
    blocks before (ts ++ rest) = blocks (before ++ ts) rest := by
  induction ts generalizing before with
  | nil => rw [List.nil_append, List.append_nil]
  | cons t ts ih =>
    obtain ⟨ht, hts⟩ := unbraced_cons.1 h
    rw [List.cons_append, blocks, ht]
    dsimp only
    rw [ih hts, List.append_assoc, List.singleton_append]

theorem blocks_group (h : Unbraced ts) (before content rest : List Token) :
    blocks before (ts ++ braces content :: rest) = (before ++ ts, content) :: blocks [] rest := by
  rw [blocks_append h]
  rfl

theorem descriptions_append (h : Unbraced ts) (before rest : List Token) :
    descriptions before (ts ++ rest) = descriptions (before ++ ts) rest := by
  rw [descriptions, descriptions, blocks_append h]

theorem implementor?_eq_none {u : Token} (h : u.isWord "for" = false) (ts : List Token) (n : Name) :
    implementor? (ts ++ [u, .name n]) = none := by
  have hr : (ts ++ [u, .name n]).reverse = .name n :: u :: ts.reverse := by simp
  rw [implementor?, hr]
  cases ts.reverse with
  | nil => rfl
  | cons v vs =>
    dsimp only
    rw [h, Bool.false_and, if_neg Bool.false_ne_true]

theorem nameTokens_concat (ns : List Name) (m n : Name) :
    nameTokens (ns ++ [m, n]) = nameTokens (ns ++ [m]) ++ [sep, .name n] := by
  induction ns with
  | nil => rfl
  | cons a ns ih =>
    have hcons : ∀ x (l : List Name), nameTokens (a :: (ns ++ x :: l)) =
        .name a :: sep :: nameTokens (ns ++ x :: l) := fun x l => by
      cases ns <;> rfl
    rw [List.cons_append, List.cons_append, hcons, hcons, ih]
    rfl

theorem tokens_child (p : NamePath) (n : String) : ∃ ts, (p.child n).tokens = ts ++ [word n] := by
  obtain ⟨absolute, ns⟩ := p
  rcases List.eq_nil_or_concat ns with rfl | ⟨ns, m, rfl⟩
  · exact ⟨if absolute then [sep] else [], rfl⟩
  · refine ⟨(if absolute then [sep] else []) ++ nameTokens (ns ++ [m]) ++ [sep], ?_⟩
    rw [NamePath.tokens, NamePath.child, List.concat_eq_append, List.append_assoc,
      List.singleton_append, nameTokens_concat]
    simp only [List.append_assoc]
    rfl

theorem tokens_child_child (p : NamePath) (m n : String) :
    ((p.child m).child n).tokens = (p.child m).tokens ++ [sep, word n] := by
  simp only [NamePath.tokens, NamePath.child, List.append_assoc, List.singleton_append]
  rw [nameTokens_concat]
  rfl

theorem unbraced_importItem (i : Import) : Unbraced (Binding.importItem i).tokens := by
  have htree : Unbraced i.tokens := by
    refine unbraced_append.2 ⟨unbraced_path i.path, ?_⟩
    split
    · exact unbraced_of_all rfl
    · exact unbraced_nil
  refine unbraced_append.2 ⟨unbraced_append.2 ⟨unbraced_attributes _, ?_⟩, unbraced_of_all rfl⟩
  exact unbraced_cons.2 ⟨rfl, htree⟩

end Blocks

section Constants

def beforeLiteral : List Token :=
  [operator ":", operator "&", lifetime "static", word "str", operator "="]

theorem tokens_const (n v : String) : (Member.const n Wrapper.staticText v).tokens =
    word "const" :: word n :: (beforeLiteral ++ [.text v, operator ";"]) := rfl

theorem assigned?_beforeLiteral (t : Token) (rest : List Token) :
    assigned? (beforeLiteral ++ t :: rest) = t.literal? := by
  have hcolon : Token.isOperator "=" (operator ":") = false := by decide
  have hand : Token.isOperator "=" (operator "&") = false := by decide
  have hequal : Token.isOperator "=" (operator "=") = true := by decide
  simp only [beforeLiteral, List.cons_append, List.nil_append, assigned?, hcolon, hand, hequal,
    Bool.false_eq_true, if_false, if_true]
  rfl

theorem constant?_eq (n v : String) (rest : List Token) :
    constant? n ((Member.const n Wrapper.staticText v).tokens ++ rest) = some v := by
  have hn : Token.isWord n (word n) = true := beq_self_eq_true _
  have hc : Token.isWord "const" (word "const") = true := by decide
  rw [tokens_const, List.cons_append, List.cons_append, constant?, hc, hn, Bool.and_self,
    if_pos rfl, List.append_assoc, List.cons_append, assigned?_beforeLiteral, literal?_text]

theorem constant?_append {n : String} {ts : List Token} (h : ∀ t ∈ ts, t.isWord "const" = false)
    (u : Token) (rest : List Token) : constant? n (ts ++ u :: rest) = constant? n (u :: rest) := by
  induction ts with
  | nil => rfl
  | cons t ts ih =>
    obtain ⟨ht, hts⟩ := List.forall_mem_cons.1 h
    rw [← ih hts]
    cases ts <;> simp only [List.cons_append, List.nil_append, constant?, ht, Bool.false_and,
      Bool.false_eq_true, if_false]

theorem constant?_of_ne {m n v : String} (hm : m ≠ "const") (hn : m ≠ n) (t : Token)
    (rest : List Token) :
    constant? n ((Member.const m Wrapper.staticText v).tokens ++ t :: rest) =
      constant? n (t :: rest) := by
  have hword : ∀ {s : String}, m ≠ s → Token.isWord s (word m) = false := fun {s} hs =>
    beq_false_of_ne fun e => hs (congrArg Name.text e)
  have hplain : ∀ t ∈ word m :: (beforeLiteral ++ [.text v, operator ";"]),
      t.isWord "const" = false := by
    refine List.forall_mem_cons.2 ⟨hword hm, List.forall_mem_append.2 ⟨by decide, ?_⟩⟩
    exact List.forall_mem_cons.2 ⟨rfl, by decide⟩
  rw [tokens_const, List.cons_append, List.cons_append, constant?, hword hn, Bool.and_false,
    if_neg Bool.false_ne_true, ← List.cons_append]
  exact constant?_append hplain t rest

end Constants

section Wrappers

variable (w : Wrapper) (s : Support) {u : SourceUnit}

theorem embedded?_kernelSource (hu : u.embedded = true) :
    embedded? (Wrapper.kernelSource s u).method.body = some u.text := by
  obtain ⟨ts, hts⟩ := tokens_child s.path "KernelSource"
  -- Only the end of the path of the called function is looked at.
  have hbody : (Wrapper.kernelSource s u).bodyTokens =
      ts ++ [word "KernelSource", sep, word "Embedded", parens [.text u.text]] := by
    show (Wrapper.sourceOf s u).tokens ++ [] = _
    rw [Wrapper.sourceOf, if_pos hu, Expr.tokens, tokens_path, tokens_child_child, hts]
    simp only [List.append_nil, List.append_assoc]
    rfl
  have hpart : IsPart ";" (Wrapper.kernelSource s u).bodyTokens := by
    have hpath := isOperator_of_mem_pathTokens (p := s.path.child "KernelSource")
      (s := ";") (by decide)
    rw [hts] at hpath
    rw [hbody]
    refine ⟨by simp, List.forall_mem_append.2 ⟨fun t ht => hpath t (List.mem_append_left _ ht), ?_⟩⟩
    simp only [List.forall_mem_cons]
    exact ⟨rfl, by decide, rfl, rfl, by decide⟩
  have hcall : (word "Embedded").isWord "Embedded" = true ∧ sep.isOperator "::" = true ∧
      (word "KernelSource").isWord "KernelSource" = true := by decide
  obtain ⟨hembedded, hsep, hsource⟩ := hcall
  show embedded? (parts ";" (Wrapper.kernelSource s u).bodyTokens) = _
  rw [hpart.parts_eq, hbody]
  simp only [embedded?, List.map_cons, List.map_nil, List.reverse_append, List.reverse_cons,
    List.reverse_nil, List.nil_append, List.cons_append, parens, hembedded, hsep, hsource,
    Bool.and_self, if_true, literal?_text]

theorem description?_description (hu : u.embedded = true) :
    description? ((w.description s u).flatMap Member.tokens) =
      some ⟨w.kernelName, u.resolved.display, u.path.display, u.text⟩ := by
  have hmethods := methodsIn_description w s u
  have hnamed : named "kernel_source" [(Wrapper.kernelSource s u).method] =
      [(Wrapper.kernelSource s u).method] := by rfl
  have hcontent : (w.description s u).flatMap Member.tokens =
      (Member.const "KERNEL_NAME" Wrapper.staticText w.kernelName).tokens ++
        ((Member.const "KERNEL_PATH" Wrapper.staticText u.resolved.display).tokens ++
          ((Member.const "ORIGINAL_PATH" Wrapper.staticText u.path.display).tokens ++
            (Wrapper.kernelSource s u).tokens)) := by
    simp only [Wrapper.description, List.flatMap_cons, List.flatMap_nil, List.append_nil]
    rfl
  have hname : constant? "KERNEL_NAME" ((w.description s u).flatMap Member.tokens) =
      some w.kernelName := by
    rw [hcontent]
    exact constant?_eq _ _ _
  have hpath : constant? "KERNEL_PATH" ((w.description s u).flatMap Member.tokens) =
      some u.resolved.display := by
    rw [hcontent]
    exact (constant?_of_ne (by decide) (by decide) _ _).trans (constant?_eq _ _ _)
  have horiginal : constant? "ORIGINAL_PATH" ((w.description s u).flatMap Member.tokens) =
      some u.path.display := by
    rw [hcontent]
    refine (constant?_of_ne (by decide) (by decide) _ _).trans ?_
    exact (constant?_of_ne (by decide) (by decide) _ _).trans (constant?_eq _ _ _)
  rw [description?, hname, hpath, horiginal, hmethods, hnamed]
  dsimp only
  rw [embedded?_kernelSource s hu]
  rfl

end Wrappers

section Items

variable (before rest : List Token)

theorem descriptions_other {ts : List Token} {u : Token} (hts : Unbraced ts)
    (hu : u.content? .brace = none) (hfor : u.isWord "for" = false) (n : Name)
    (content : List Token) :
    descriptions before (ts ++ [u, .name n] ++ braces content :: rest) = descriptions [] rest := by
  have hplain : Unbraced (ts ++ [u, .name n]) :=
    unbraced_append.2 ⟨hts, unbraced_cons.2 ⟨hu, unbraced_of_all rfl⟩⟩
  have hnone := implementor?_eq_none hfor (before ++ ts) n
  rw [List.append_assoc] at hnone
  rw [descriptions, blocks_group hplain, List.filterMap_cons, hnone]
  rfl

theorem descriptions_struct (as : List Attribute) (n : Name) (fs : List (String × Ty)) :
    descriptions before ((Item.struct as n fs).tokens ++ rest) = descriptions [] rest := by
  have htokens : (Item.struct as n fs).tokens ++ rest =
      as.flatMap Attribute.tokens ++ [word "pub"] ++ [word "struct", .name n] ++
        braces (endCommas (fs.map fun f => word f.1 :: operator ":" :: f.2.tokens)) :: rest := by
    simp only [Item.tokens, List.append_assoc, List.cons_append, List.nil_append]
  have hplain : Unbraced (as.flatMap Attribute.tokens ++ [word "pub"]) :=
    unbraced_append.2 ⟨unbraced_attributes as, unbraced_of_all rfl⟩
  rw [htokens]
  exact descriptions_other before rest hplain rfl (by decide) n _

theorem descriptions_methods (as : List Attribute) (n : Name) (ms : List Member) :
    descriptions before ((Item.implement as none n ms).tokens ++ rest) = descriptions [] rest := by
  have htokens : (Item.implement as none n ms).tokens ++ rest =
      as.flatMap Attribute.tokens ++ [word "impl", .name n] ++
        braces (ms.flatMap Member.tokens) :: rest := by
    simp only [Item.tokens, List.append_assoc, List.cons_append, List.nil_append]
  rw [htokens]
  exact descriptions_other before rest (unbraced_attributes as) rfl (by decide) n _

theorem descriptions_interface (p : NamePath) (n : Name) (ms : List Member) :
    descriptions before ((Item.implement [] (some (p.child "KernelWrapper")) n ms).tokens ++ rest) =
      (n, description? (ms.flatMap Member.tokens)) :: descriptions [] rest := by
  obtain ⟨ts, hts⟩ := tokens_child p "KernelWrapper"
  have htokens : (Item.implement [] (some (p.child "KernelWrapper")) n ms).tokens ++ rest =
      (word "impl" :: ts ++ [word "KernelWrapper", word "for", .name n]) ++
        braces (ms.flatMap Member.tokens) :: rest := by
    simp only [Item.tokens, hts, List.flatMap_nil, List.append_assoc, List.cons_append,
      List.nil_append]
  have hplain : Unbraced (word "impl" :: ts ++ [word "KernelWrapper", word "for", .name n]) := by
    have hpath := unbraced_path (p.child "KernelWrapper")
    rw [hts, unbraced_append] at hpath
    exact unbraced_append.2 ⟨unbraced_cons.2 ⟨rfl, hpath.1⟩, unbraced_of_all rfl⟩
  -- Whatever stands before, the interface is the third token from the end.
  have hsome : implementor? (before ++ (word "impl" :: ts ++
      [word "KernelWrapper", word "for", .name n])) = some n := by
    rw [← List.append_assoc, implementor?, List.reverse_append]
    rfl
  rw [htokens, descriptions, blocks_group hplain, List.filterMap_cons, hsome]
  rfl

theorem descriptions_items (w : Wrapper) (s : Support) {u : SourceUnit} (hu : u.embedded = true) :
    descriptions before ((w.items s u).flatMap Item.tokens ++ rest) =
      (w.name, some ⟨w.kernelName, u.resolved.display, u.path.display, u.text⟩) ::
        descriptions [] rest := by
  simp only [Wrapper.items, List.flatMap_cons, List.flatMap_nil, List.append_nil, List.append_assoc]
  rw [descriptions_struct, descriptions_interface, descriptions_methods,
    description?_description w s hu]

theorem descriptions_wrappers (ws : List Wrapper) (s : Support) {u : SourceUnit}
    (hu : u.embedded = true) :
    descriptions before ((ws.flatMap fun w => w.items s u).flatMap Item.tokens) =
      ws.map fun w =>
        (w.name, some ⟨w.kernelName, u.resolved.display, u.path.display, u.text⟩) := by
  induction ws generalizing before with
  | nil => rfl
  | cons w ws ih =>
    rw [List.flatMap_cons, List.flatMap_append, descriptions_items before _ w s hu, ih]
    rfl

end Items

section Binding

variable {r : Reader} {path : String} {u : SourceUnit} {a : Analysis} {b : Binding}

theorem named_ofKernel {k : Kernel} {w : Wrapper} (h : Wrapper.ofKernel k r = .ok w) :
    Name.ofDialect? k.name = some w.name ∧ w.kernelName = k.name := by
  simp only [Wrapper.ofKernel, bind, Except.bind] at h
  split at h
  · cases h
  · next n hn =>
    split at h
    · cases h
    · split at h
      · cases h
      · cases h
        exact ⟨hostName_eq_ok.1 hn, rfl⟩

theorem named_readWrappers {ks : List Kernel} {ws : List Wrapper} (h : readWrappers r ks = .ok ws) :
    ws.map (fun w => (some w.name, w.kernelName)) =
      ks.map fun k => (Name.ofDialect? k.name, k.name) := by
  induction ks generalizing ws with
  | nil =>
    cases h
    rfl
  | cons k ks ih =>
    rw [readWrappers] at h
    split at h
    · next w hw =>
      simp only [bind, Except.bind] at h
      split at h
      · cases h
      · next ws' hws =>
        cases h
        obtain ⟨hname, hkernel⟩ := named_ofKernel hw
        rw [List.map_cons, List.map_cons, ih hws, hname, hkernel]
    · cases h

theorem Binding.ofAnalysis_eq_ok (h : Binding.ofAnalysis path u a r = .ok b) :
    b.unit = u ∧ readWrappers r a.kernels = .ok b.wrappers := by
  simp only [Binding.ofAnalysis, bind, Except.bind] at h
  split at h
  · cases h
  · split at h
    · cases h
    · split at h
      · cases h
      · next ws hws =>
        cases h
        exact ⟨rfl, hws⟩

/-- The code for a unit that is embedded has, for every kernel in order, a type named after it that
says of it the name it was declared with, the paths of the unit and the text of the unit as it is.
A text is written so that it is read back up to the end of its literal, whatever is behind it. -/
theorem Binding.descriptions_ofAnalysis {i : Input} {resolved : Path} {text : String}
    (hi : i.referenced = false)
    (hb : Binding.ofAnalysis path (SourceUnit.ofText i resolved text) a r = .ok b) :
    ((descriptions [] (b.items.flatMap Item.tokens)).map fun d => (some d.1, d.2)) =
        a.kernels.map (fun k =>
          (Name.ofDialect? k.name, some ⟨k.name, resolved.display, i.path.display, text⟩)) ∧
      ∀ s rest, unquote? ((Token.text s).render.toList ++ rest) = some (s, rest) := by
  refine ⟨?_, fun s rest => ?_⟩
  · obtain ⟨hunit, hws⟩ := Binding.ofAnalysis_eq_ok hb
    have hu : b.unit.embedded = true := by
      rw [hunit, SourceUnit.ofText, hi]
      rfl
    have himports : Unbraced ((Binding.importItem ⟨b.support.path.child "types", true⟩ ::
        b.imports.map Binding.importItem).flatMap Item.tokens) := by
      intro t ht
      obtain ⟨item, hitem, ht⟩ := List.mem_flatMap.1 ht
      rw [← List.map_cons] at hitem
      obtain ⟨tree, -, rfl⟩ := List.mem_map.1 hitem
      exact unbraced_importItem tree t ht
    have hnames := congrArg (List.map fun x : Option Name × String =>
      (x.1, some (⟨x.2, resolved.display, i.path.display, text⟩ : Description)))
      (named_readWrappers hws)
    rw [List.map_map, List.map_map] at hnames
    rw [Binding.items, List.flatMap_append, descriptions_append himports,
      descriptions_wrappers _ _ _ hu, hunit, List.map_map]
    exact hnames
  · rw [Token.render]
    exact unquote?_quoted s rest

def annotatedText : String :=
  "/* \"a\\n\" \x001 */\r\nkernel\nvoid type(global int* out); // \t\u007f"

def annotatedInput : Input := ⟨⟨"k/a.cl".toList⟩, ⟨"k/a".toList⟩, false⟩

theorem descriptions_annotated : ∃ b, annotatedInput.referenced = false ∧
    Binding.ofAnalysis "rt" (SourceUnit.ofText annotatedInput ⟨"/s/k/a.cl".toList⟩ annotatedText)
      (Analysis.ofText annotatedText.toList) = .ok b ∧
    (descriptions [] (b.items.flatMap Item.tokens)).map (fun d => (some d.1, d.2)) =
      [(some ⟨"type", true⟩, some ⟨"type", "/s/k/a.cl", "k/a.cl", annotatedText⟩)] := by
  have hok : (Binding.ofAnalysis "rt"
      (SourceUnit.ofText annotatedInput ⟨"/s/k/a.cl".toList⟩ annotatedText)
      (Analysis.ofText annotatedText.toList)).toBool = true := by decide +kernel
  cases hb : Binding.ofAnalysis "rt"
      (SourceUnit.ofText annotatedInput ⟨"/s/k/a.cl".toList⟩ annotatedText)
      (Analysis.ofText annotatedText.toList) with
  | error e =>
    rw [hb] at hok
    cases hok
  | ok b =>
    refine ⟨b, rfl, rfl, ?_⟩
    rw [(Binding.descriptions_ofAnalysis rfl hb).1]
    decide +kernel

end Binding

end KernelWrap
