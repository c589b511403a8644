import KernelWrap.Proofs.Names
import KernelWrap.Proofs.Semantics

/-! The methods of a wrapper, called with values that its slots accept, are launches of its native
object: the dispatch method binds the kernel, sets the native argument of every slot at its index
and enqueues the kernel, and the run methods do this with the grid filled up by zeros. -/

namespace KernelWrap
open Host Compute Wrapper

/-- The values that a slot accepts, each with the native argument that it stands for. -/
inductive Slot.Accepts (h : Target) (t : Slot) : Value → NativeArgument → Prop
  | buffer {m : Handle} : t.passing = .buffer → Accepts h t (.buffer m) (.memory m)
  | length {n : Nat} : t.passing = .localSize →
      Accepts h t (.number n) (.room (n * h.size t.type % wordSize))
  | value {bs : List UInt8} : t.passing = .value → bs.length = h.size t.type →
      Accepts h t (.data bs) (.bytes bs)

inductive Passes (h : Target) : List Slot → List Value → List NativeArgument → Prop
  | nil : Passes h [] [] []
  | cons {t : Slot} {v : Value} {a : NativeArgument} {ts : List Slot} {vs : List Value}
      {as : List NativeArgument} : t.Accepts h v a → Passes h ts vs as →
      Passes h (t :: ts) (v :: vs) (a :: as)

structure NamesApart (ts : List Slot) : Prop where
  nodup : (ts.map Slot.name).Nodup
  own : ∀ t ∈ ts, t.name ∉ ownNames

def Binds (ls : Locals) (ts : List Slot) (vs : List Value) : Prop :=
  List.Forall₂ (fun t v => ls.lookup t.name = some v) ts vs

section Locals

theorem lookup_cons_of_ne {ls : Locals} {n m : Name} {v : Value} (h : n ≠ m) :
    List.lookup n ((m, v) :: ls) = ls.lookup n := by
  rw [List.lookup_cons, beq_false_of_ne h]

theorem lookup_cons_self {ls : Locals} {n : Name} {v : Value} :
    List.lookup n ((n, v) :: ls) = some v := List.lookup_cons_self

theorem lookup_zip_of_notMem {ns : List Name} {vs : List Value} {n : Name} (h : n ∉ ns)
    (ls : Locals) : List.lookup n (ns.zip vs ++ ls) = ls.lookup n := by
  induction ns generalizing vs with
  | nil => rfl
  | cons m ns ih =>
    obtain ⟨hm, hn⟩ := not_or.1 (mt List.mem_cons.2 h)
    cases vs with
    | nil => rfl
    | cons v vs =>
      rw [List.zip_cons_cons, List.cons_append, lookup_cons_of_ne hm]
      exact ih hn

theorem Binds.push {ls : Locals} {ts : List Slot} {vs : List Value} (h : Binds ls ts vs) {n : Name}
    (hn : ∀ t ∈ ts, t.name ≠ n) (v : Value) : Binds ((n, v) :: ls) ts vs := by
  induction h with
  | nil => exact List.Forall₂.nil
  | @cons t w ts ws hl _ ih =>
    refine List.Forall₂.cons ?_ (ih fun u hu => hn u (List.mem_cons_of_mem t hu))
    rwa [lookup_cons_of_ne (hn t List.mem_cons_self)]

theorem binds_zip {ts : List Slot} {vs : List Value} (hn : (ts.map Slot.name).Nodup)
    (hl : ts.length = vs.length) (ls : Locals) : Binds ((ts.map Slot.name).zip vs ++ ls) ts vs := by
  induction ts generalizing vs with
  | nil =>
    rw [List.eq_nil_of_length_eq_zero hl.symm]
    exact List.Forall₂.nil
  | cons t ts ih =>
    cases vs with
    | nil => cases hl
    | cons v vs =>
      obtain ⟨hm, hn⟩ := List.nodup_cons.1 hn
      -- No later slot has the name of the first one, so the first one hides none of them.
      refine List.Forall₂.cons lookup_cons_self ?_
      refine (ih hn (Nat.succ.inj hl)).push (fun u hu e => hm ?_) v
      rw [← e]
      exact List.mem_map_of_mem hu

end Locals

section Expressions

variable {h : Target} {ls : Locals}

theorem value?_sizeOf (t : Ty) : h.value? ls (sizeOf t) = some (.number (h.size t)) := by
  simp only [sizeOf, Target.value?, Target.values?, Option.bind_some, Target.called?, if_true]

theorem value?_native {t : Slot} {v : Value} {a : NativeArgument} (hv : t.Accepts h v a)
    (hl : ls.lookup t.name = some v) : h.value? ls (t.native h.support) = some (.argument a) := by
  have hn : h.value? ls t.value = some v := hl
  unfold Slot.native
  cases hv with
  | buffer hp =>
    simp only [hp, Target.value?, Target.values?, hn, Option.bind_some, Value.read?, if_true,
      Option.map_some, Target.called?, Target.kernelArg]
  | length hp =>
    simp only [hp, Target.value?, Target.fieldValues?, hn, value?_sizeOf, Option.bind_some,
      Value.times?, Option.map_some, Target.recorded?, Target.kernelArg, and_self, if_true]
  | @value bs hp hs =>
    have ha : h.value? ls (addressOf t.name) = some (.address bs) := by
      simp only [addressOf, Target.value?, Target.values?, hl, Option.bind_some, Value.addressed?,
        if_true, Value.read?]
    simp only [hp, Target.value?, Target.fieldValues?, ha, value?_sizeOf, Option.bind_some,
      Option.map_some, Target.recorded?, Target.kernelArg, and_self, if_true, ← hs, List.take_length]

theorem values?_slots {ts : List Slot} {vs : List Value} (hb : Binds ls ts vs) :
    h.values? ls (ts.map Slot.value) = some vs := by
  induction hb with
  | nil => rfl
  | @cons t v ts vs hl _ ih =>
    have hv : h.value? ls t.value = some v := hl
    rw [List.map_cons, Target.values?, ih, hv]
    rfl

theorem values?_vars (ns : List String) (vs : List Value)
    (hv : List.Forall₂ (fun n v => ls.lookup (.plain n) = some v) ns vs) :
    h.values? ls (ns.map .var) = some vs := by
  induction hv with
  | nil => rfl
  | @cons n v ns vs hl _ ih =>
    have hv : h.value? ls (.var n) = some v := hl
    rw [List.map_cons, Target.values?, ih, hv]
    rfl

theorem values?_append {es fs : List Expr} {vs ws : List Value} (he : h.values? ls es = some vs)
    (hf : h.values? ls fs = some ws) : h.values? ls (es ++ fs) = some (vs ++ ws) := by
  induction es generalizing vs with
  | nil =>
    cases he
    exact hf
  | cons e es ih =>
    simp only [Target.values?, Option.bind_eq_some_iff, Option.map_eq_some_iff] at he
    obtain ⟨v, hv, us, hu, rfl⟩ := he
    rw [List.cons_append, Target.values?, hv, ih hu]
    rfl

end Expressions

section Entry

variable {w : Wrapper} {vs : List Value}

def Wrapper.locals (w : Wrapper) (vs : List Value) (q g l es : Value) : Locals :=
  (.plain "self", .object) :: (.plain "queue", q) :: ((w.slots.map Slot.name).zip vs ++
    [(.plain "global", g), (.plain "local", l), (.plain "wait_list", es)])

theorem zip_launchParams (s : Support) (n : Nat) (hl : w.slots.length = vs.length)
    (q g l es : Value) :
    (.plain "self", .object) :: ((w.launchParams s n).map Param.name).zip (q :: vs ++ [g, l, es]) =
      w.locals vs q g l es := by
  have hn : (w.launchParams s n).map Param.name = .plain "queue" :: (w.slots.map Slot.name ++
      [.plain "global", .plain "local", .plain "wait_list"]) := by
    simp only [Wrapper.launchParams, List.map_append, List.map_cons, List.map_map,
      List.cons_append, List.append_assoc]
    rfl
  rw [hn, List.cons_append, List.zip_cons_cons, List.zip_append (by rw [List.length_map, hl])]
  rfl

theorem length_launchParams (s : Support) (n : Nat) (hl : w.slots.length = vs.length)
    (q g l es : Value) : (q :: vs ++ [g, l, es]).length = (w.launchParams s n).length := by
  simp only [Wrapper.launchParams, Wrapper.gridParams, List.length_append, List.length_cons,
    List.length_map, List.length_nil, hl]

theorem call_eq {h : Target} {f : Function} {s : Support} {n : Nat}
    (hf : f.params = w.launchParams s n) (hl : w.slots.length = vs.length) (ms : Methods)
    (q g l es : Value) (m : Machine) :
    h.call ms f (q :: vs ++ [g, l, es]) m = h.run ms f.body (w.locals vs q g l es) m := by
  rw [Target.call, hf, if_pos (length_launchParams s n hl q g l es), zip_launchParams s n hl]

variable (hn : NamesApart w.slots) (q g l es : Value)
include hn

theorem lookup_locals (vs : List Value) :
    (w.locals vs q g l es).lookup (.plain "queue") = some q ∧
      (w.locals vs q g l es).lookup (.plain "global") = some g ∧
      (w.locals vs q g l es).lookup (.plain "local") = some l ∧
      (w.locals vs q g l es).lookup (.plain "wait_list") = some es := by
  -- These parameters stand in front of the slots or behind them, and no slot has their names.
  have hm : ∀ n ∈ ownNames, n ∉ w.slots.map Slot.name := by
    intro n ho hm
    obtain ⟨t, ht, rfl⟩ := List.mem_map.1 hm
    exact hn.own t ht ho
  have behind : ∀ n ∈ ownNames, n ≠ .plain "self" → n ≠ .plain "queue" →
      (w.locals vs q g l es).lookup n =
        [(.plain "global", g), (.plain "local", l), (.plain "wait_list", es)].lookup n := by
    intro n ho hs hq
    rw [Wrapper.locals, lookup_cons_of_ne hs, lookup_cons_of_ne hq, lookup_zip_of_notMem (hm n ho)]
  exact ⟨rfl, behind _ (by decide) (by decide) (by decide),
    behind _ (by decide) (by decide) (by decide), behind _ (by decide) (by decide) (by decide)⟩

theorem binds_locals (hl : w.slots.length = vs.length) :
    Binds (w.locals vs q g l es) w.slots vs := by
  have hne : ∀ n ∈ ownNames, ∀ t ∈ w.slots, t.name ≠ n := fun n hm t ht e => hn.own t ht (e ▸ hm)
  have hz := binds_zip hn.nodup hl [(.plain "global", g), (.plain "local", l), (.plain "wait_list", es)]
  exact (hz.push (hne _ (by decide)) q).push (hne _ (by decide)) .object

end Entry

section Dispatch

variable {h : Target} {ms : Methods} {ls : Locals}

theorem run_set {t : Slot} {v : Value} {a : NativeArgument} {x : Handle}
    (hv : t.Accepts h v a) (hl : ls.lookup t.name = some v)
    (hk : ls.lookup (.plain "bound_kernel") = some (.kernel x)) (rest : List Stmt) (m : Machine) :
    h.run ms (t.set h.support :: rest) ls m =
      match m.context.perform (.setArgument x t.index a) with
      | (.error e, c) => some (.error e, { m with context := c })
      | (.ok (), c) => h.run ms rest ls { m with context := c } := by
  have hb : h.value? ls (.var "bound_kernel") = some (.kernel x) := hk
  have he : h.effect ms ls (.method (.var "bound_kernel") "set_arg"
      [.number t.index, t.native h.support]) m =
      some ((m.context.perform (.setArgument x t.index a)).1.map fun _ => .unit,
        { m with context := (m.context.perform (.setArgument x t.index a)).2 }) := by
    simp only [Target.effect, Target.values?, Target.value?, hb, value?_native hv hl,
      Option.bind_some, Option.map_some, Value.act, if_true]
  rw [Slot.set, Target.run, he]
  rcases m.context.perform (.setArgument x t.index a) with ⟨_ | _, c⟩ <;> rfl

theorem run_sets {ts : List Slot} {vs : List Value} {as : List NativeArgument} {x : Handle}
    (hp : Passes h ts vs as) (hb : Binds ls ts vs)
    (hk : ls.lookup (.plain "bound_kernel") = some (.kernel x)) (rest : List Stmt) (m : Machine) :
    h.run ms (ts.map (Slot.set h.support) ++ rest) ls m =
      match m.context.setArguments x ((ts.map Slot.index).zip as) with
      | (.error e, c) => some (.error e, { m with context := c })
      | (.ok (), c) => h.run ms rest ls { m with context := c } := by
  induction hp generalizing m with
  | nil => rfl
  | @cons t v a ts vs as hv _ ih =>
    obtain ⟨hl, hb⟩ := List.forall₂_cons.1 hb
    rw [List.map_cons, List.cons_append, run_set hv hl hk, List.map_cons, List.zip_cons_cons,
      Context.setArguments]
    rcases m.context.perform (.setArgument x t.index a) with ⟨e | u, c⟩
    · rfl
    · exact ih hb { m with context := c }

def launched : Except KernelError Event × KernelObject × Context → Effect
  | (r, k, c) => some (r.map .event, ⟨k, c⟩)

theorem Passes.length_eq {ts : List Slot} {vs : List Value} {as : List NativeArgument}
    (hp : Passes h ts vs as) : ts.length = vs.length ∧ ts.length = as.length := by
  induction hp with
  | nil => exact ⟨rfl, rfl⟩
  | cons _ _ ih => exact ⟨congrArg Nat.succ ih.1, congrArg Nat.succ ih.2⟩

theorem effect_enqueue {w : Wrapper} (hn : NamesApart w.slots) (vs : List Value) (x : Handle)
    (q : Queue) {g l : Value} {grid group : Extent} (hg : extent? g = some grid)
    (hl : extent? l = some group) (es : List Event) (m : Machine) :
    h.effect ms ((.plain "bound_kernel", .kernel x) :: w.locals vs (.queue q) g l (.events es))
        (.method (.var "bound_kernel") "enqueue"
          [.var "queue", .var "global", .var "local", .var "wait_list"]) m =
      some ((m.context.enqueue x q grid group es).1.map .event,
        { m with context := (m.context.enqueue x q grid group es).2 }) := by
  obtain ⟨hqueue, hglobal, hlocal, hwait⟩ := lookup_locals hn (.queue q) g l (.events es) vs
  generalize w.locals vs (.queue q) g l (.events es) = L at *
  have hbound : h.value? ((.plain "bound_kernel", .kernel x) :: L) (.var "bound_kernel") =
      some (.kernel x) := rfl
  have hvalues : h.values? ((.plain "bound_kernel", .kernel x) :: L)
      [.var "queue", .var "global", .var "local", .var "wait_list"] =
      some [.queue q, g, l, .events es] :=
    values?_vars ["queue", "global", "local", "wait_list"] [.queue q, g, l, .events es]
      (.cons ((lookup_cons_of_ne (by decide)).trans hqueue) <|
        .cons ((lookup_cons_of_ne (by decide)).trans hglobal) <|
        .cons ((lookup_cons_of_ne (by decide)).trans hlocal) <|
        .cons ((lookup_cons_of_ne (by decide)).trans hwait) .nil)
  simp only [Target.effect, hbound, hvalues, Option.bind_some, Value.act, if_true, hg, hl]

theorem call_dispatch {w : Wrapper} (hn : NamesApart w.slots) {vs : List Value}
    {as : List NativeArgument} (hp : Passes h w.slots vs as) (q : Queue) {g l : Value}
    {grid group : Extent} (hg : extent? g = some grid) (hl : extent? l = some group)
    (es : List Event) (m : Machine) :
    h.call ms (w.dispatch h.support) (.queue q :: vs ++ [g, l, .events es]) m =
      launched (m.context.dispatch m.object q ((w.slots.map Slot.index).zip as) grid group es) := by
  have hlen := hp.length_eq.1
  have hbase : h.effect ms (w.locals vs (.queue q) g l (.events es))
      (.method (.field (.var "self") "base") "bind" [.var "queue"]) m =
      some ((m.context.bind m.object q).1.map .kernel,
        ⟨(m.context.bind m.object q).2.1, (m.context.bind m.object q).2.2⟩) := rfl
  rw [call_eq (n := 3) rfl hlen, Wrapper.dispatch, List.cons_append, Target.run, hbase,
    Context.dispatch]
  rcases m.context.bind m.object q with ⟨e | x, k, c⟩
  · rfl
  · -- The kernel is bound now, and its name hides no slot and no other parameter.
    have hbinds := (binds_locals hn (.queue q) g l (.events es) hlen).push
      (fun t ht e => hn.own t ht (e ▸ by decide)) (n := .plain "bound_kernel") (.kernel x)
    simp only [Except.map, run_sets hp hbinds lookup_cons_self]
    rcases c.setArguments x ((w.slots.map Slot.index).zip as) with ⟨e | u, c⟩
    · rfl
    · simp only [Target.run, effect_enqueue hn vs x q hg hl es]
      rcases c.enqueue x q grid group es with ⟨r, c⟩
      rfl

end Dispatch

section Runs

variable {h : Target} {ms : Methods} {ls : Locals}

def filled (ns : List Nat) : Extent := ⟨ns[0]?.getD 0, ns[1]?.getD 0, ns[2]?.getD 0⟩

theorem value?_padded {ns : List Nat} (hn : ns.length ∈ [1, 2, 3]) {s : String}
    (hl : ls.lookup (.plain s) = some (.sizes ns)) :
    h.value? ls (padded ns.length s) = some (.sizes (filled ns).axes) := by
  have hv : h.value? ls (.var s) = some (.sizes ns) := hl
  have hr : List.range 3 = [0, 1, 2] := rfl
  rw [padded, hr]
  match ns, hn with
  | [_], _ => simp [Target.value?, Target.values?, hv, Value.component?, sizes?, filled, Extent.axes]
  | [_, _], _ =>
    simp [Target.value?, Target.values?, hv, Value.component?, sizes?, filled, Extent.axes]
  | [_, _, _], _ =>
    simp [Target.value?, Target.values?, hv, Value.component?, sizes?, filled, Extent.axes]

theorem effect_forward {w : Wrapper} (hn : NamesApart w.slots) {vs : List Value}
    {as : List NativeArgument} (hp : Passes h w.slots vs as) (q : Queue) {g l : List Nat}
    (hd : g.length ∈ [1, 2, 3]) (hgl : l.length = g.length) (es : List Event) (m : Machine) :
    h.effect (w.own h) (w.locals vs (.queue q) (.sizes g) (.sizes l) (.events es))
        (w.forward g.length) m =
      launched (m.context.dispatch m.object q ((w.slots.map Slot.index).zip as) (filled g)
        (filled l) es) := by
  rw [← call_dispatch hn hp q (g := .sizes (filled g).axes) (l := .sizes (filled l).axes) rfl rfl]
  have hbinds := binds_locals hn (.queue q) (.sizes g) (.sizes l) (.events es) hp.length_eq.1
  obtain ⟨hqueue, hglobal, hlocal, hwait⟩ :=
    lookup_locals hn (.queue q) (.sizes g) (.sizes l) (.events es) vs
  have hself : h.value? (w.locals vs (.queue q) (.sizes g) (.sizes l) (.events es))
      (.var "self") = some .object := rfl
  generalize w.locals vs (.queue q) (.sizes g) (.sizes l) (.events es) = L at *
  have hgrid : h.values? L [padded g.length "global", padded g.length "local"] =
      some [.sizes (filled g).axes, .sizes (filled l).axes] := by
    have hg := value?_padded (h := h) hd hglobal
    have hl := value?_padded (h := h) (hgl ▸ hd) hlocal
    rw [hgl] at hl
    rw [Target.values?, hg, Target.values?, hl]
    rfl
  have hargs : h.values? L ([.var "queue"] ++ w.slots.map Slot.value ++
      ([padded g.length "global", padded g.length "local"] ++ [.var "wait_list"])) =
      some ([.queue q] ++ vs ++
        ([.sizes (filled g).axes, .sizes (filled l).axes] ++ [.events es])) :=
    values?_append
      (values?_append (values?_vars ["queue"] _ (.cons hqueue .nil)) (values?_slots hbinds))
      (values?_append hgrid (values?_vars ["wait_list"] _ (.cons hwait .nil)))
  have hf : w.forward g.length = .method (.var "self") "dispatch"
      ([.var "queue"] ++ w.slots.map Slot.value ++
        ([padded g.length "global", padded g.length "local"] ++ [.var "wait_list"])) := rfl
  rw [hf, Target.effect, hself, Option.bind_some, hargs]
  rfl

variable {w : Wrapper} (hn : NamesApart w.slots) {vs : List Value} {as : List NativeArgument}
  (hp : Passes h w.slots vs as) (q : Queue) {g l : List Nat} (hd : g.length ∈ [1, 2, 3])
  (hgl : l.length = g.length) (es : List Event) (m : Machine)
include hn hp hd hgl

theorem call_runAsync : h.call (w.own h) (w.runAsync h.support g.length)
    (.queue q :: vs ++ [.sizes g, .sizes l, .events es]) m =
      launched (m.context.dispatch m.object q ((w.slots.map Slot.index).zip as) (filled g)
        (filled l) es) := by
  rw [call_eq (n := g.length) rfl hp.length_eq.1, Wrapper.runAsync, Target.run]
  exact effect_forward hn hp q hd hgl es m

theorem call_run : h.call (w.own h) (w.run h.support g.length)
    (.queue q :: vs ++ [.sizes g, .sizes l, .events es]) m =
      match m.context.dispatch m.object q ((w.slots.map Slot.index).zip as) (filled g)
        (filled l) es with
      | (.error e, k, c) => some (.error e, ⟨k, c⟩)
      | (.ok e, k, c) => some ((c.finish e).1.map fun _ => .unit, ⟨k, (c.finish e).2⟩) := by
  rw [call_eq (n := g.length) rfl hp.length_eq.1, Wrapper.run, Target.run,
    effect_forward hn hp q hd hgl es m]
  rcases m.context.dispatch m.object q ((w.slots.map Slot.index).zip as) (filled g)
    (filled l) es with ⟨e | e, k, c⟩
  · rfl
  · rfl

end Runs

end KernelWrap
