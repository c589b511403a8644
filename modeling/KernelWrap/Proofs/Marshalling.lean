import KernelWrap.Proofs.Methods
import KernelWrap.Proofs.Slots

/-! How a wrapper hands its arguments over, read off its tokens. The dispatch method sets the
arguments one after the other, each at the number of its place, and then enqueues the kernel; the
run methods take the same parameters and name them to the dispatch method in the same order. -/

namespace KernelWrap
open Host Token
open Declaration (KernelSignature)

section Expected

def sizeOfTokens (t : Ty) : List Token :=
  [sep, word "core", sep, word "mem", sep, word "size_of", sep, operator "<"] ++ t.tokens ++
    [operator ">", parens []]

def Slot.definition (s : Support) (t : Slot) : List Token :=
  [.name t.name, operator ":"] ++
    match t.passing with
    | .buffer => operator "&" :: (s.path.child "Buffer").tokens ++
        [operator "<"] ++ t.type.tokens ++ [operator ">"]
    | .localSize => [word "usize"]
    | .value => t.type.tokens

/-- What is handed to the native setter: the memory of the buffer, as many elements of the host type
as the parameter says, or the bytes at the address of the parameter. -/
def Slot.handed (s : Support) (t : Slot) : List Token :=
  match t.passing with
  | .buffer => ((s.path.child "KernelArg").child "Mem").tokens ++
      [parens [.name t.name, operator ".", word "mem", parens []]]
  | .localSize => ((s.path.child "KernelArg").child "Local").tokens ++
      [braces ([word "size", operator ":", .name t.name, operator "*"] ++ sizeOfTokens t.type ++
        [operator ","])]
  | .value => ((s.path.child "KernelArg").child "Bytes").tokens ++
      [braces ([word "size", operator ":"] ++ sizeOfTokens t.type ++
        [operator ",", word "value", operator ":", sep, word "core", sep, word "ptr", sep,
          word "addr_of", operator "!", parens [.name t.name], operator ".", word "cast", parens [],
          operator ","])]

def Slot.setting (s : Support) (i : Nat) (t : Slot) : List Token :=
  [word "bound_kernel", operator ".", word "set_arg", parens ([.number i, operator ","] ++ t.handed s),
    operator "?"]

def binding (changing : Bool) : List Token :=
  word "let" :: (if changing then [word "mut"] else []) ++
    [word "bound_kernel", operator "=", word "self", operator ".", word "base", operator ".",
      word "bind", parens [word "queue"], operator "?"]

def enqueueing : List Token :=
  [word "bound_kernel", operator ".", word "enqueue", parens (joinCommas
    [[word "queue"], [word "global"], [word "local"], [word "wait_list"]])]

def gridDefinition (size : String) (n : Nat) : List Token :=
  [word size, operator ":", squares [word "usize", operator ";", .number n]]

/-- The parameters of a method over `n` dimensions: those of the slots lie between the queue and the
grid. -/
def definitions (s : Support) (ts : List Slot) (n : Nat) : List (List Token) :=
  [[operator "&", word "mut", word "self"],
    [word "queue", operator ":", operator "&"] ++ (s.path.child "CommandQueue").tokens] ++
  ts.map (Slot.definition s) ++
  [gridDefinition "global" n, gridDefinition "local" n,
    [word "wait_list", operator ":", operator "&", squares (s.path.child "Event").tokens]]

def components (size : String) (n : Nat) : List Token :=
  joinCommas ((List.range n).map (fun i => [word size, squares [.number i]]) ++
    List.replicate (3 - n) [.number 0])

def forwarding (ts : List Slot) (n : Nat) : List Token :=
  [word "self", operator ".", word "dispatch", parens (joinCommas ([[word "queue"]] ++
    ts.map (fun t => [.name t.name]) ++
    [[squares (components "global" n)], [squares (components "local" n)], [word "wait_list"]]))]

def named (n : String) (ms : List Method) : List Method := ms.filter fun m => m.name == .plain n

/-- Methods that hand slots over: one method of each name, with these parameters and statements. -/
structure Marshals (s : Support) (ts : List Slot) (ms : List Method) : Prop where
  dispatch : named "dispatch" ms = [⟨.plain "dispatch", definitions s ts 3,
    [binding !ts.isEmpty] ++ ts.mapIdx (Slot.setting s) ++ [enqueueing]⟩]
  run : ∀ n ∈ [1, 2, 3], named s!"run_{n}d" ms = [⟨.plain s!"run_{n}d", definitions s ts n,
    [[word "let", word "event", operator "="] ++ forwarding ts n ++ [operator "?"],
      [word "event", operator ".", word "wait", parens []]]⟩]
  runAsync : ∀ n ∈ [1, 2, 3], named s!"run_{n}d_async" ms =
    [⟨.plain s!"run_{n}d_async", definitions s ts n, [forwarding ts n]⟩]

end Expected

section Trees

theorem exprTokens_eq (es : List Expr) : exprTokens es = joinCommas (es.map Expr.tokens) := by
  induction es with
  | nil => rfl
  | cons e es ih =>
    cases es with
    | nil => exact List.append_nil _
    | cons e' es =>
      show e.tokens ++ operator "," :: exprTokens (e' :: es) = _
      rw [ih]
      rfl

theorem tokens_path (p : NamePath) : (Expr.path p []).tokens = p.tokens := List.append_nil _

theorem tokens_named (p : NamePath) : (Ty.named p []).tokens = p.tokens := List.append_nil _

theorem tokens_sizeOf (t : Ty) : (sizeOf t).tokens = sizeOfTokens t := by
  have hp : (NamePath.absoluteOf ["core", "mem", "size_of"]).tokens =
      [sep, word "core", sep, word "mem", sep, word "size_of"] := rfl
  rw [sizeOf, Expr.tokens, Expr.tokens, hp, sizeOfTokens, exprTokens]
  simp only [List.isEmpty_cons, Bool.false_eq_true, if_false, tyTokens, moreTyTokens,
    List.append_nil, List.cons_append, List.nil_append, List.append_assoc]

theorem tokens_native (s : Support) (t : Slot) : (t.native s).tokens = t.handed s := by
  unfold Slot.native Slot.handed
  cases t.passing with
  | buffer =>
    show (Expr.path _ []).tokens ++ _ = _
    rw [tokens_path]
    rfl
  | localSize =>
    show _ ++ [braces ([word "size", operator ":", .name t.name, operator "*"] ++
      (sizeOf t.type).tokens ++ [operator ","])] = _
    rw [tokens_sizeOf]
  | value =>
    show _ ++ [braces ([word "size", operator ":"] ++ (sizeOf t.type).tokens ++
      operator "," :: word "value" :: operator ":" :: _)] = _
    rw [tokens_sizeOf]
    rfl

theorem tokens_set (s : Support) (t : Slot) :
    (t.set s).tokens = t.setting s t.index ++ [operator ";"] := by
  show [word "bound_kernel", operator ".", word "set_arg",
    parens (.number t.index :: operator "," :: ((t.native s).tokens ++ [])), operator "?",
    operator ";"] = _
  rw [tokens_native, List.append_nil]
  rfl

theorem tokens_param (s : Support) (t : Slot) : (t.param s).tokens = t.definition s := by
  unfold Slot.param Slot.definition
  cases t.passing with
  | buffer =>
    simp only [Param.tokens, Ty.tokens, tyTokens, moreTyTokens, List.isEmpty_cons, Bool.false_eq_true,
      if_false, List.append_nil, List.append_assoc, List.cons_append, List.nil_append]
    rfl
  | localSize => rfl
  | value => rfl

theorem tokens_padded {n : Nat} (h : n ∈ [1, 2, 3]) (size : String) :
    (Wrapper.padded n size).tokens = [squares (components size n)] := by
  simp only [List.mem_cons, List.not_mem_nil, or_false] at h
  rcases h with rfl | rfl | rfl <;> rfl

theorem tokens_forward (w : Wrapper) {n : Nat} (h : n ∈ [1, 2, 3]) :
    (w.forward n).tokens = forwarding w.slots n := by
  have hv : ∀ t : Slot, t.value.tokens = [.name t.name] := fun _ => rfl
  have hd : ∀ n, (Expr.var n).tokens = [word n] := fun _ => rfl
  simp only [Wrapper.forward, Expr.tokens, exprTokens_eq, List.map_append, List.map_cons,
    List.map_map, Function.comp_def, hv, hd, List.map_nil, tokens_padded h, forwarding,
    List.cons_append, List.nil_append]

theorem tokens_definitions (w : Wrapper) (s : Support) (n : Nat) :
    Receiver.exclusive.tokens ++ (w.launchParams s n).map Param.tokens =
      definitions s w.slots n := by
  have hq : (Wrapper.queueParam s).tokens =
      [word "queue", operator ":", operator "&"] ++ (s.path.child "CommandQueue").tokens :=
    congrArg (_ :: _ :: _ :: ·) (tokens_named _)
  have hw : (Wrapper.waitParam s).tokens =
      [word "wait_list", operator ":", operator "&", squares (s.path.child "Event").tokens] :=
    congrArg (fun ts => [_, _, _, squares ts]) (tokens_named _)
  have hg : (Wrapper.gridParams n).map Param.tokens =
      [gridDefinition "global" n, gridDefinition "local" n] := rfl
  have hs : (w.slots.map (Slot.param s)).map Param.tokens = w.slots.map (Slot.definition s) := by
    rw [List.map_map]
    exact List.map_congr_left fun t _ => tokens_param s t
  rw [Wrapper.launchParams, List.map_append, List.map_append, List.map_cons, List.map_singleton, hq,
    hw, hg, hs, definitions]
  simp only [Receiver.tokens, List.append_assoc, List.cons_append, List.nil_append]

end Trees

section Types

def CommaFree (ts : List Ty) : Prop := ∀ t ∈ ts, ∀ x ∈ t.tokens, isOperator "," x = false

/-- The types that a reader has for the arguments of a kernel hold no commas outside brackets. -/
def Host.Reader.Separates (r : Reader) (as : List Argument) : Prop :=
  CommaFree (as.filterMap fun a => r.type? a.hostType)

theorem SlotsFor.commaFree {r : Reader} {as : List Argument} {ts : List Slot} (h : SlotsFor r as ts)
    (hr : r.Separates as) : CommaFree (ts.map Slot.type) := by
  intro ty hty
  obtain ⟨t, ht, rfl⟩ := List.mem_map.1 hty
  have hm : some t.type ∈ as.map fun a => r.type? a.hostType := h.type ▸ List.mem_map_of_mem ht
  obtain ⟨a, ha, e⟩ := List.mem_map.1 hm
  exact hr _ (List.mem_filterMap.2 ⟨a, ha, e⟩)

theorem readType?_eq_some {s : String} {t : Ty} (h : readType? s = some t) :
    t = .infer ∨ ∃ p, t = .named p [] := by
  obtain ⟨ts, -, h⟩ := Option.bind_eq_some_iff.1 h
  split at h
  · cases h
    exact .inl rfl
  · obtain ⟨p, -, h⟩ := Option.bind_eq_some_iff.1 h
    split at h
    · cases h
      exact .inr ⟨p, rfl⟩
    · cases h

theorem separates_pathReader (as : List Argument) : pathReader.Separates as := by
  intro t ht
  obtain ⟨a, -, e⟩ := List.mem_filterMap.1 ht
  rcases readType?_eq_some e with rfl | ⟨p, rfl⟩
  · exact List.forall_mem_singleton.2 rfl
  · rw [tokens_named]
    exact isOperator_of_mem_pathTokens (by decide)

end Types

section Methods

variable {w : Wrapper} (h : CommaFree (w.slots.map Slot.type))
include h

theorem isOperator_definition (s : Support) {t : Slot} (ht : t ∈ w.slots) :
    ∀ x ∈ t.definition s, isOperator "," x = false := by
  have hty := h t.type (List.mem_map_of_mem ht)
  refine List.forall_mem_append.2 ⟨List.forall_mem_cons.2 ⟨rfl, by decide⟩, ?_⟩
  -- Commas could only come from the types, and the types that are read have none.
  cases t.passing with
  | buffer =>
    have hp := isOperator_of_mem_pathTokens (p := s.path.child "Buffer") (s := ",") (by decide)
    simp only [List.forall_mem_append, List.forall_mem_cons]
    exact ⟨⟨⟨⟨rfl, hp⟩, by decide⟩, hty⟩, by decide⟩
  | localSize => exact List.forall_mem_singleton.2 rfl
  | value => exact hty

theorem isPart_definitions (s : Support) (n : Nat) :
    ∀ d ∈ definitions s w.slots n, IsPart "," d := by
  have hp : ∀ p : NamePath, ∀ x ∈ p.tokens, isOperator "," x = false :=
    fun p => isOperator_of_mem_pathTokens (by decide)
  have hgrid : ∀ size, IsPart "," (gridDefinition size n) := fun size =>
    ⟨List.cons_ne_nil _ _, List.forall_mem_cons.2 ⟨rfl, List.forall_mem_cons.2
      ⟨by decide, List.forall_mem_singleton.2 rfl⟩⟩⟩
  intro d hd
  simp only [definitions, List.mem_append, List.mem_cons, List.mem_map, List.not_mem_nil,
    or_false] at hd
  rcases hd with ((rfl | rfl) | ⟨t, ht, rfl⟩) | rfl | rfl | rfl
  · exact ⟨List.cons_ne_nil _ _, by decide⟩
  · exact ⟨List.cons_ne_nil _ _, List.forall_mem_append.2 ⟨by decide, hp _⟩⟩
  · exact ⟨List.cons_ne_nil _ _, isOperator_definition h s ht⟩
  · exact hgrid "global"
  · exact hgrid "local"
  · refine ⟨List.cons_ne_nil _ _, ?_⟩
    simp only [List.forall_mem_cons]
    exact ⟨rfl, by decide, by decide, rfl, by decide⟩

theorem parts_params (s : Support) (n : Nat) :
    parts "," (endCommas (Receiver.exclusive.tokens ++ (w.launchParams s n).map Param.tokens)) =
      definitions s w.slots n := by
  rw [tokens_definitions]
  exact parts_endCommas (isPart_definitions h s n)

end Methods

section Statements

theorem isPart_setting (s : Support) (i : Nat) (t : Slot) : IsPart ";" (t.setting s i) := by
  refine ⟨List.cons_ne_nil _ _, ?_⟩
  simp only [Slot.setting, List.forall_mem_cons]
  exact ⟨by decide, by decide, by decide, rfl, by decide⟩

theorem isPart_binding (b : Bool) : IsPart ";" (binding b) := by
  cases b <;> exact ⟨List.cons_ne_nil _ _, by decide⟩

theorem map_setting (s : Support) {ts : List Slot} (hi : ts.map Slot.index = List.range ts.length) :
    ts.map (fun t => t.setting s t.index) = ts.mapIdx (Slot.setting s) := by
  refine List.ext_getElem (by simp) fun i h₁ h₂ => ?_
  have hx := List.getElem_of_eq hi (i := i) (by simpa using h₁)
  rw [List.getElem_map, List.getElem_range] at hx
  rw [List.getElem_map, List.getElem_mapIdx, hx]

theorem tokens_bind (b : Bool) : Stmt.tokens (.bind b "bound_kernel"
    (.propagate (.method (.field (.var "self") "base") "bind" [.var "queue"]))) =
      binding b ++ [operator ";"] := by
  cases b <;> rfl

theorem parts_dispatch (w : Wrapper) (s : Support)
    (hi : w.slots.map Slot.index = List.range w.slots.length) :
    parts ";" (w.dispatch s).bodyTokens =
      [binding !w.slots.isEmpty] ++ w.slots.mapIdx (Slot.setting s) ++ [enqueueing] := by
  have hset : (w.slots.map (Slot.set s)).flatMap Stmt.tokens =
      (w.slots.mapIdx (Slot.setting s)).flatMap fun x => x ++ [operator ";"] := by
    rw [← map_setting s hi, List.flatMap_map, List.flatMap_map]
    exact List.flatMap_congr fun t _ => tokens_set s t
  have hb : (w.dispatch s).bodyTokens =
      ([binding !w.slots.isEmpty] ++ w.slots.mapIdx (Slot.setting s)).flatMap
        (fun x => x ++ [operator ";"]) ++ enqueueing := by
    rw [List.flatMap_append, List.flatMap_singleton, ← hset, ← tokens_bind]
    simp only [Function.bodyTokens, Wrapper.dispatch, List.flatMap_cons, List.flatMap_append,
      List.cons_append, List.flatMap_nil, List.append_nil, List.append_assoc]
    rfl
  have hp : ∀ x ∈ [binding !w.slots.isEmpty] ++ w.slots.mapIdx (Slot.setting s), IsPart ";" x := by
    intro x hx
    rcases List.mem_append.1 hx with hx | hx
    · rw [List.mem_singleton.1 hx]
      exact isPart_binding _
    · obtain ⟨i, hi, rfl⟩ := List.mem_mapIdx.1 hx
      exact isPart_setting s _ _
  have he : IsPart ";" enqueueing := ⟨List.cons_ne_nil _ _, by decide⟩
  rw [hb, parts_flatMap hp, he.parts_eq]

theorem isPart_forwarding (ts : List Slot) (n : Nat) : IsPart ";" (forwarding ts n) := by
  refine ⟨List.cons_ne_nil _ _, ?_⟩
  simp only [forwarding, List.forall_mem_cons]
  exact ⟨by decide, by decide, by decide, rfl, by decide⟩

theorem parts_run (w : Wrapper) (s : Support) {n : Nat} (h : n ∈ [1, 2, 3]) :
    parts ";" (w.run s n).bodyTokens =
      [[word "let", word "event", operator "="] ++ forwarding w.slots n ++ [operator "?"],
        [word "event", operator ".", word "wait", parens []]] := by
  have hb : (w.run s n).bodyTokens =
      [[word "let", word "event", operator "="] ++ forwarding w.slots n ++ [operator "?"]].flatMap
        (fun x => x ++ [operator ";"]) ++ [word "event", operator ".", word "wait", parens []] := by
    rw [← tokens_forward w h]
    rfl
  have hp : IsPart ";" ([word "let", word "event", operator "="] ++ forwarding w.slots n ++
      [operator "?"]) := by
    refine ⟨List.cons_ne_nil _ _, ?_⟩
    simp only [List.forall_mem_append]
    exact ⟨⟨by decide, (isPart_forwarding _ _).2⟩, by decide⟩
  have hw : IsPart ";" [word "event", operator ".", word "wait", parens []] :=
    ⟨List.cons_ne_nil _ _, by decide⟩
  rw [hb, parts_flatMap (List.forall_mem_singleton.2 hp), hw.parts_eq]
  rfl

theorem parts_runAsync (w : Wrapper) (s : Support) {n : Nat} (h : n ∈ [1, 2, 3]) :
    parts ";" (w.runAsync s n).bodyTokens = [forwarding w.slots n] := by
  have hb : (w.runAsync s n).bodyTokens = (w.forward n).tokens := List.append_nil _
  rw [hb, tokens_forward w h]
  exact (isPart_forwarding _ _).parts_eq

end Statements

section Items

theorem contents_of_unbraced {ts : List Token} (h : Unbraced ts) :
    ts.filterMap (content? .brace) = [] := List.filterMap_eq_nil_iff.2 h

theorem contents_struct (as : List Attribute) (n : Name) (fs : List (String × Ty)) :
    (Item.struct as n fs).tokens.filterMap (content? .brace) =
      [endCommas (fs.map fun f => word f.1 :: operator ":" :: f.2.tokens)] := by
  rw [Item.tokens, List.filterMap_append, contents_of_unbraced (unbraced_attributes as)]
  rfl

theorem contents_implement (as : List Attribute) (i : Option NamePath) (n : Name)
    (ms : List Member) : (Item.implement as i n ms).tokens.filterMap (content? .brace) =
      [ms.flatMap Member.tokens] := by
  have ha := contents_of_unbraced (unbraced_attributes as)
  unfold Item.tokens
  rw [List.filterMap_append, List.filterMap_append, ha]
  cases i with
  | none => rfl
  | some p =>
    have hp : Unbraced (word "impl" :: (p.tokens ++ [word "for"])) :=
      unbraced_cons.2 ⟨rfl, unbraced_append.2 ⟨unbraced_path p, unbraced_cons.2 ⟨rfl, unbraced_nil⟩⟩⟩
    rw [contents_of_unbraced hp]
    rfl

theorem methodsIn_description (w : Wrapper) (s : Support) (u : SourceUnit) :
    methodsIn ((w.description s u).flatMap Member.tokens) =
      [(Wrapper.kernelSource s u).method] := by
  have hc : ∀ n v, Token.isWord "fn" (word n) = false →
      ∀ t ∈ (Member.const n Wrapper.staticText v).tokens, t.isWord "fn" = false := by
    intro n v hn
    have ht : ∀ t ∈ Wrapper.staticText.tokens, t.isWord "fn" = false := by decide
    simp only [Member.tokens, List.cons_append, List.forall_mem_cons, List.forall_mem_append]
    exact ⟨by decide, hn, rfl, ht, rfl, rfl, rfl, List.forall_mem_nil _⟩
  simp only [Wrapper.description, List.flatMap_cons, List.flatMap_nil, List.append_nil]
  rw [methodsIn_append (hc _ _ (by decide)), methodsIn_append (hc _ _ (by decide)),
    methodsIn_append (hc _ _ (by decide))]
  have hm := methodsIn_function (Wrapper.kernelSource s u) []
  rwa [List.append_nil, methodsIn_nil] at hm

theorem methodsOf_items (w : Wrapper) (s : Support) (u : SourceUnit) :
    methodsOf ((w.items s u).flatMap Item.tokens) =
      (Wrapper.kernelSource s u :: w.methods s).map Function.method := by
  -- The braces of the struct have a field in them, but no method.
  have hf : methodsIn (endCommas [word "base" :: operator ":" :: (s.type "KernelBase").tokens]) =
      [] := by
    refine methodsIn_of_noParens ?_
    have hp : ∀ t ∈ (s.type "KernelBase").tokens, t.content? .paren = none := by
      rw [Support.type, tokens_named]
      intro t ht
      rcases mem_pathTokens ht with rfl | ⟨n, rfl⟩ <;> rfl
    simp only [endCommas, List.flatMap_cons, List.flatMap_nil, List.append_nil, List.cons_append,
      List.forall_mem_cons, List.forall_mem_append]
    exact ⟨rfl, rfl, hp, rfl, List.forall_mem_nil _⟩
  have hm : ((w.methods s).map Member.function).flatMap Member.tokens =
      (w.methods s).flatMap Function.tokens := List.flatMap_map ..
  simp only [methodsOf, Wrapper.items, List.flatMap_cons, List.flatMap_nil, List.append_nil,
    List.filterMap_append, contents_struct, contents_implement, List.flatMap_append, hf,
    methodsIn_description, hm, methodsIn_functions, List.nil_append, List.map_cons,
    List.map_nil]
  rfl

theorem named_map (n : String) (fs : List Host.Function) :
    named n (fs.map Function.method) = (fs.filter fun f => f.name == n).map Function.method := by
  have hf : ((fun m : Method => m.name == .plain n) ∘ Function.method) =
      fun f : Host.Function => f.name == n := by
    funext f
    refine Bool.eq_iff_iff.2 ?_
    show (Name.plain f.name == .plain n) = true ↔ _
    rw [beq_iff_eq, beq_iff_eq, Name.plain, Name.plain, Name.mk.injEq]
    exact and_iff_left rfl
  rw [named, List.filter_map, hf]

section Handing

variable {w : Wrapper} (h : CommaFree (w.slots.map Slot.type)) (s : Support)
include h

theorem method_dispatch (hi : w.slots.map Slot.index = List.range w.slots.length) :
    (w.dispatch s).method = ⟨.plain "dispatch", definitions s w.slots 3,
      [binding !w.slots.isEmpty] ++ w.slots.mapIdx (Slot.setting s) ++ [enqueueing]⟩ := by
  rw [← parts_dispatch w s hi, ← parts_params h s 3]
  rfl

theorem method_run {n : Nat} (hn : n ∈ [1, 2, 3]) :
    (w.run s n).method = ⟨.plain s!"run_{n}d", definitions s w.slots n,
      [[word "let", word "event", operator "="] ++ forwarding w.slots n ++ [operator "?"],
        [word "event", operator ".", word "wait", parens []]]⟩ := by
  rw [← parts_run w s hn, ← parts_params h s n]
  rfl

theorem method_runAsync {n : Nat} (hn : n ∈ [1, 2, 3]) :
    (w.runAsync s n).method =
      ⟨.plain s!"run_{n}d_async", definitions s w.slots n, [forwarding w.slots n]⟩ := by
  rw [← parts_runAsync w s hn, ← parts_params h s n]
  rfl

theorem marshals_items (hi : w.slots.map Slot.index = List.range w.slots.length) (u : SourceUnit) :
    Marshals s w.slots (methodsOf ((w.items s u).flatMap Item.tokens)) := by
  rw [methodsOf_items]
  constructor
  · rw [named_map, ← method_dispatch h s hi]
    rfl
  · intro n hm
    rw [named_map, ← method_run h s hm]
    simp only [List.mem_cons, List.not_mem_nil, or_false] at hm
    rcases hm with rfl | rfl | rfl <;> rfl
  · intro n hm
    rw [named_map, ← method_runAsync h s hm]
    simp only [List.mem_cons, List.not_mem_nil, or_false] at hm
    rcases hm with rfl | rfl | rfl <;> rfl

end Handing

/-- The items of a wrapper hand over the arguments of its kernel, each in its place. -/
theorem items_marshal {r : Reader} {k : KernelSignature} {w : Wrapper}
    (hr : r.Separates (Kernel.ofSignature k).arguments)
    (h : Wrapper.ofKernel (Kernel.ofSignature k) r = .ok w) (s : Support) (u : SourceUnit) :
    SlotsFor r (Kernel.ofSignature k).arguments w.slots ∧
      Marshals s w.slots (methodsOf ((w.items s u).flatMap Item.tokens)) := by
  have hs := slotsFor_ofKernel h
  have hi : w.slots.map Slot.index = List.range w.slots.length := by
    rw [hs.index, hs.length_eq]
    exact index_ofSignature k
  exact ⟨hs, marshals_items (hs.commaFree hr) s hi u⟩

def scaleSignature : KernelSignature where
  name := "scale"
  line := 1
  parameters :=
    [⟨"out", some .globalMem, false, false, "float", 4, true⟩,
      ⟨"buf", some .localMem, false, false, "int", 0, true⟩,
      ⟨"type", none, false, false, "uint", 0, false⟩, ⟨"queue", none, true, false, "bool", 0, false⟩]

def scaleUnit : SourceUnit := ⟨⟨"a.cl".toList⟩, ⟨"/s/a.cl".toList⟩, "", true, ⟨"a.cl".toList⟩⟩

theorem items_marshal_scale : ∃ w, Wrapper.ofKernel (Kernel.ofSignature scaleSignature) = .ok w ∧
    SlotsFor pathReader (Kernel.ofSignature scaleSignature).arguments w.slots ∧
    Marshals ⟨.absoluteOf ["rt"]⟩ w.slots
      (methodsOf ((w.items ⟨.absoluteOf ["rt"]⟩ scaleUnit).flatMap Item.tokens)) := by
  have hb : (Wrapper.ofKernel (Kernel.ofSignature scaleSignature)).toBool = true := by
    decide +kernel
  cases hw : Wrapper.ofKernel (Kernel.ofSignature scaleSignature) with
  | ok w => exact ⟨w, rfl, items_marshal (separates_pathReader _) hw _ _⟩
  | error e =>
    rw [hw] at hb
    cases hb

end Items

end KernelWrap
