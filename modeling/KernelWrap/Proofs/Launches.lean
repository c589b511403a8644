import KernelWrap.Proofs.Dispatching
import KernelWrap.Proofs.Evaluation

/-! The native arguments that launches run with. A launch may stop halfway and leave some arguments
set and others not, and the native kernel keeps them. The next launch sets all of them again before
it enqueues the kernel, so that what an enqueue finds is what was passed to the launch it is part of,
whatever the launches before it did. -/

namespace KernelWrap
open Declaration Host Compute

/-- A call of one of the methods that launch over one, two or three dimensions: values that the slots
accept, with the native arguments that they stand for, and sizes for each dimension. -/
structure Launch (h : Target) (ts : List Slot) where
  blocking : Bool
  queue : Queue
  values : List Value
  arguments : List NativeArgument
  grid : List Nat
  group : List Nat
  waitList : List Event
  passes : Passes h ts values arguments
  dimensions : grid.length ∈ [1, 2, 3]
  sameLength : group.length = grid.length

structure Turn (h : Target) (ts : List Slot) where
  launch : Launch h ts
  before : Machine
  result : Except KernelError Value
  after : Machine

namespace Wrapper

variable (w : Wrapper) (h : Target)

def launching (L : Launch h w.slots) : Function :=
  if L.blocking then w.run h.support L.grid.length else w.runAsync h.support L.grid.length

def launch (L : Launch h w.slots) (m : Machine) : Effect :=
  h.call (w.own h) (w.launching h L)
    (.queue L.queue :: L.values ++ [.sizes L.grid, .sizes L.group, .events L.waitList]) m

def turns : List (Launch h w.slots) → Machine → Option (List (Turn h w.slots) × Machine)
  | [], m => some ([], m)
  | L :: Ls, m =>
    match w.launch h L m with
    | some (r, m₁) => (turns Ls m₁).map fun t => (⟨L, m, r, m₁⟩ :: t.1, t.2)
    | none => none

end Wrapper

/-- Every enqueue among new records, the first in front, satisfies `P` together with the records
that are there when it is made, the latest in front. -/
def Enqueues (P : List Record → Call → Prop) : List Record → List Record → Prop
  | _, [] => True
  | rs, r :: new => (r.call.operation = .enqueue → P rs r.call) ∧ Enqueues P (r :: rs) new

namespace Turn

variable {h : Target} {ts : List Slot}

def records (t : Turn h ts) : List Record := since t.before.context.native t.after.context.native

/-- An enqueue carries out the launch of a turn: it is for the kernel of the object on the queue of
the launch and waits for its events, and the native arguments of that kernel are those passed. -/
def Carries (t : Turn h ts) (rs : List Record) (c : Call) : Prop :=
  ∃ d p x grid group, t.after.object.stage = .built d p x ∧
    c = .enqueue t.launch.queue.handle x grid group (t.launch.waitList.map Event.handle) ∧
    ∀ i < ts.length, argument? rs x i = t.launch.arguments[i]?

inductive Fails (t : Turn h ts) : KernelError → Prop
  | bind {e : KernelError} :
      (t.before.context.bind t.before.object t.launch.queue).1 = .error e → Fails t e
  | set {x : Handle} {i : Nat} {a : NativeArgument} {why : Refusal} :
      ⟨.setArgument x i a, .refused why⟩ ∈ t.records → Fails t (.native .setArgument why.status)
  /-- The kernel is bound and all arguments are set. -/
  | grid {x : Handle} : (t.before.context.bind t.before.object t.launch.queue).1 = .ok x →
      (∀ r ∈ t.records, r.call.operation = .setArgument → r.answer = .done) →
      (filled t.launch.grid).dimension? = none → Fails t (.noGrid (filled t.launch.grid))

/-- A turn that enqueues nothing but what its launch asks for. -/
structure Faithful (t : Turn h ts) : Prop where
  enqueues : Enqueues t.Carries t.before.context.native.records t.records
  failed : ∀ e, t.Fails e → t.result = .error e ∧ ∀ r ∈ t.records, r.call.operation ≠ .enqueue
  /-- A launch that does not fail gets as far as its enqueue. -/
  reached : (∀ e, ¬t.Fails e) → ∃ r ∈ t.records, r.call.operation = .enqueue

end Turn

section Enqueues

variable {P : List Record → Call → Prop}

theorem enqueues_append {rs new more : List Record} (h : Enqueues P rs new)
    (h' : Enqueues P (new.reverse ++ rs) more) : Enqueues P rs (new ++ more) := by
  induction new generalizing rs with
  | nil => exact h'
  | cons r new ih =>
    rw [List.reverse_cons, List.append_assoc] at h'
    exact ⟨h.1, ih h.2 h'⟩

theorem enqueues_of_forall {new : List Record} (h : ∀ r ∈ new, r.call.operation ≠ .enqueue)
    (rs : List Record) : Enqueues P rs new := by
  induction new generalizing rs with
  | nil => trivial
  | cons r new ih =>
    exact ⟨fun e => absurd e (h r List.mem_cons_self),
      ih (fun s hs => h s (List.mem_cons_of_mem r hs)) (r :: rs)⟩

end Enqueues

section Turns

variable {w : Wrapper} {h : Target}

/-- How a turn went: it bound the kernel, its dispatch took one of the courses, and a blocking one
waited for its event. Each part left its own records. -/
structure Turn.Went (t : Turn h w.slots) (b : Except KernelError Handle)
    (r : Except KernelError Event) (bs rs ws : List Record) : Prop where
  bind : ∃ c, t.before.context.bind t.before.object t.launch.queue = (b, t.after.object, c)
  building : ∀ r ∈ bs, r.call.operation ∈ [.buildProgram, .createKernel, .releaseProgram]
  stage : ∀ x, b = .ok x → ∃ d p, t.after.object.stage = .built d p x
  course : Course t.launch.queue ((w.slots.map Slot.index).zip t.launch.arguments)
    (filled t.launch.grid) (filled t.launch.group) t.launch.waitList b rs r
  result : ∀ e, r = .error e → t.result = .error e
  waiting : ∀ r ∈ ws, r.call.operation ∈ [.wait, .releaseEvent]
  gains : Gains t.before.context.native t.after.context.native (bs ++ rs ++ ws)

theorem launch_eq (hn : NamesApart w.slots) (L : Launch h w.slots) (m : Machine) :
    w.launch h L m =
      match m.context.dispatch m.object L.queue ((w.slots.map Slot.index).zip L.arguments)
        (filled L.grid) (filled L.group) L.waitList with
      | (.error e, k, c) => some (.error e, ⟨k, c⟩)
      | (.ok e, k, c) =>
        if L.blocking then some ((c.finish e).1.map fun _ => .unit, ⟨k, (c.finish e).2⟩)
        else some (.ok (.event e), ⟨k, c⟩) := by
  have hrun := call_run hn L.passes L.queue L.dimensions L.sameLength L.waitList m
  have hasync := call_runAsync hn L.passes L.queue L.dimensions L.sameLength L.waitList m
  rw [Wrapper.launch, Wrapper.launching]
  generalize m.context.dispatch m.object L.queue ((w.slots.map Slot.index).zip L.arguments)
    (filled L.grid) (filled L.group) L.waitList = dispatched at hrun hasync ⊢
  obtain ⟨e | e, k, c⟩ := dispatched
  · split
    · exact hrun
    · exact hasync
  · split
    · exact hrun
    · exact hasync

theorem launch_went (hn : NamesApart w.slots) (L : Launch h w.slots) (m : Machine) :
    ∃ v m' b r bs rs ws, w.launch h L m = some (v, m') ∧
      (⟨L, m, v, m'⟩ : Turn h w.slots).Went b r bs rs ws := by
  obtain ⟨b, k, c₁, bs, r, c, rs, hb, hbs, hx, hd, hc, g⟩ := m.context.dispatch_cases m.object L.queue
    ((w.slots.map Slot.index).zip L.arguments) (filled L.grid) (filled L.group) L.waitList
  rw [launch_eq hn L m, hd]
  have hnone : ∀ r ∈ ([] : List Record), r.call.operation ∈ [.wait, .releaseEvent] :=
    fun r hr => absurd hr List.not_mem_nil
  cases r with
  | error e =>
    refine ⟨.error e, ⟨k, c⟩, b, .error e, bs, rs, [], rfl, ⟨c₁, hb⟩, hbs, hx, hc, ?_, hnone,
      g.trans (.refl _)⟩
    exact fun e he => congrArg Except.error (Except.error.inj he)
  | ok e =>
    have hok : ∀ {v : Except KernelError Value} (e' : KernelError), Except.ok e = .error e' →
        v = .error e' := fun e' he => by cases he
    dsimp only
    split
    · -- A blocking launch waits for its event.
      obtain ⟨ws, gw, hw⟩ := c.finish_gains e
      exact ⟨_, _, b, .ok e, bs, rs, ws, rfl, ⟨c₁, hb⟩, hbs, hx, hc, hok, hw, g.trans gw⟩
    · exact ⟨_, _, b, .ok e, bs, rs, [], rfl, ⟨c₁, hb⟩, hbs, hx, hc, hok, hnone,
        g.trans (.refl _)⟩

namespace Turn.Went

variable {t : Turn h w.slots} {b : Except KernelError Handle} {r : Except KernelError Event}
  {bs rs ws : List Record}

theorem records_eq (g : t.Went b r bs rs ws) : t.records = bs ++ rs ++ ws := g.gains.since_eq

theorem building_ne (g : t.Went b r bs rs ws) {q : Record} (hq : q ∈ bs) :
    q.call.operation ≠ .enqueue ∧ q.call.operation ≠ .setArgument := by
  have hs : ∀ o ∈ [Operation.buildProgram, .createKernel, .releaseProgram],
      o ≠ .enqueue ∧ o ≠ .setArgument := by decide
  exact hs _ (g.building q hq)

theorem waiting_ne (g : t.Went b r bs rs ws) {q : Record} (hq : q ∈ ws) :
    q.call.operation ≠ .enqueue ∧ q.call.operation ≠ .setArgument := by
  have hs : ∀ o ∈ [Operation.wait, .releaseEvent], o ≠ .enqueue ∧ o ≠ .setArgument := by decide
  exact hs _ (g.waiting q hq)

theorem mem_of_operation (g : t.Went b r bs rs ws) {q : Record} (hq : q ∈ t.records)
    (ho : q.call.operation = .enqueue ∨ q.call.operation = .setArgument) : q ∈ rs := by
  rw [g.records_eq, List.mem_append, List.mem_append] at hq
  rcases hq with (hq | hq) | hq
  · exact absurd ho (not_or.2 (g.building_ne hq))
  · exact hq
  · exact absurd ho (not_or.2 (g.waiting_ne hq))

theorem bind_fst (g : t.Went b r bs rs ws) :
    (t.before.context.bind t.before.object t.launch.queue).1 = b := by
  obtain ⟨c, e⟩ := g.bind
  rw [e]

end Turn.Went

theorem argument?_launch (hi : w.slots.map Slot.index = List.range w.slots.length)
    (L : Launch h w.slots) (x : Handle) (rs : List Record) {i : Nat} (hl : i < w.slots.length) :
    argument? ((((w.slots.map Slot.index).zip L.arguments).map (setDone x)).reverse ++ rs) x i =
      L.arguments[i]? := by
  have hlen : w.slots.length = L.arguments.length := L.passes.length_eq.2
  have hf : ((w.slots.map Slot.index).zip L.arguments).map Prod.fst = List.range w.slots.length := by
    rw [List.map_fst_zip (by rw [List.length_map, hlen]), hi]
  have hb : i < L.arguments.length := hlen ▸ hl
  have ha : L.arguments[i]? = some L.arguments[i] := List.getElem?_eq_getElem hb
  rw [ha]
  refine argument?_setDone_of_mem (hf ▸ List.nodup_range) (List.mem_iff_getElem?.2 ⟨i, ?_⟩) rs
  rw [List.getElem?_zip_eq_some, hi, List.getElem?_range hl]
  exact ⟨rfl, ha⟩

theorem carries_enqueueCall (hi : w.slots.map Slot.index = List.range w.slots.length)
    {t : Turn h w.slots} {x : Handle} (hx : ∃ d p, t.after.object.stage = .built d p x)
    (rs : List Record) (d : Nat) :
    t.Carries
      ((((w.slots.map Slot.index).zip t.launch.arguments).map (setDone x)).reverse ++ rs)
      (Context.enqueueCall x t.launch.queue (filled t.launch.grid) (filled t.launch.group)
        t.launch.waitList d) := by
  obtain ⟨e, p, hs⟩ := hx
  exact ⟨e, p, x, _, _, hs, rfl, fun i hl => argument?_launch hi t.launch x rs hl⟩

theorem enqueues_course (hi : w.slots.map Slot.index = List.range w.slots.length)
    {t : Turn h w.slots} {b : Except KernelError Handle} {r : Except KernelError Event}
    {bs rs ws : List Record} (g : t.Went b r bs rs ws) (old : List Record) :
    Enqueues t.Carries old rs := by
  have hx := g.stage
  cases g.course with
  | unbound => trivial
  | @refused x done i a rest why ha =>
    refine enqueues_of_forall (fun q hq => ?_) old
    rcases List.mem_append.1 hq with hq | hq
    · exact (setDone_ne hq).1
    · rw [List.mem_singleton.1 hq]
      exact fun e => Operation.noConfusion e
  | noGrid hd => exact enqueues_of_forall (fun q hq => (setDone_ne hq).1) old
  | @enqueued x d e hd =>
    exact enqueues_append (enqueues_of_forall (fun q hq => (setDone_ne hq).1) old)
      ⟨fun _ => carries_enqueueCall hi (hx x rfl) old d, trivial⟩
  | @unqueued x d why hd =>
    exact enqueues_append (enqueues_of_forall (fun q hq => (setDone_ne hq).1) old)
      ⟨fun _ => carries_enqueueCall hi (hx x rfl) old d, trivial⟩

theorem enqueues_turn (hi : w.slots.map Slot.index = List.range w.slots.length)
    {t : Turn h w.slots} {b : Except KernelError Handle} {r : Except KernelError Event}
    {bs rs ws : List Record} (g : t.Went b r bs rs ws) :
    Enqueues t.Carries t.before.context.native.records t.records := by
  rw [g.records_eq]
  refine enqueues_append (enqueues_append ?_ ?_) ?_
  · exact enqueues_of_forall (fun q hq => (g.building_ne hq).1) _
  · exact enqueues_course hi g _
  · exact enqueues_of_forall (fun q hq => (g.waiting_ne hq).1) _

theorem failed_turn {t : Turn h w.slots} {b : Except KernelError Handle}
    {r : Except KernelError Event} {bs rs ws : List Record} (g : t.Went b r bs rs ws)
    {e : KernelError} (he : t.Fails e) :
    t.result = .error e ∧ ∀ q ∈ t.records, q.call.operation ≠ .enqueue := by
  -- Only the dispatch can have enqueued anything.
  suffices hr : r = .error e ∧ ∀ q ∈ rs, q.call.operation ≠ .enqueue by
    refine ⟨g.result e hr.1, fun q hq ho => ?_⟩
    exact hr.2 q (g.mem_of_operation hq (.inl ho)) ho
  cases he with
  | bind hb =>
    obtain rfl := g.bind_fst.symm.trans hb
    obtain ⟨rfl, rfl⟩ := g.course.of_error
    exact ⟨rfl, fun q hq => absurd hq List.not_mem_nil⟩
  | set hm => exact g.course.of_refused (g.mem_of_operation hm (.inr rfl))
  | grid hb hall hd =>
    obtain rfl := g.bind_fst.symm.trans hb
    refine g.course.of_noGrid (fun q hq => hall q ?_) hd
    rw [g.records_eq]
    exact List.mem_append_left ws (List.mem_append_right bs hq)

theorem reached_turn {t : Turn h w.slots} {b : Except KernelError Handle}
    {r : Except KernelError Event} {bs rs ws : List Record} (g : t.Went b r bs rs ws)
    (hf : ∀ e, ¬t.Fails e) : ∃ q ∈ t.records, q.call.operation = .enqueue := by
  have hsub : ∀ q ∈ rs, q ∈ t.records := by
    intro q hq
    rw [g.records_eq]
    exact List.mem_append_left _ (List.mem_append_right _ hq)
  have hb := g.bind_fst
  cases g.course with
  | unbound => exact absurd (.bind hb) (hf _)
  | refused ha => exact absurd (.set (hsub _ (List.mem_append_right _ List.mem_cons_self))) (hf _)
  | noGrid hd =>
    refine absurd (.grid hb (fun q hq ho => ?_) hd) (hf _)
    exact (setDone_ne (g.mem_of_operation hq (.inr ho))).2
  | enqueued hd => exact ⟨_, hsub _ (List.mem_append_right _ List.mem_cons_self), rfl⟩
  | unqueued hd => exact ⟨_, hsub _ (List.mem_append_right _ List.mem_cons_self), rfl⟩

theorem launch_faithful (hi : w.slots.map Slot.index = List.range w.slots.length)
    (hn : NamesApart w.slots) (L : Launch h w.slots) (m : Machine) :
    ∃ v m', w.launch h L m = some (v, m') ∧ (⟨L, m, v, m'⟩ : Turn h w.slots).Faithful ∧
      m'.context.native.records = (since m.context.native m'.context.native).reverse ++
        m.context.native.records := by
  obtain ⟨v, m', b, r, bs, rs, ws, hl, g⟩ := launch_went hn L m
  refine ⟨v, m', hl, ⟨enqueues_turn hi g, fun e => failed_turn g, reached_turn g⟩, ?_⟩
  rw [g.gains.since_eq]
  exact g.gains.records

/-- In a run of launches nothing is enqueued but what some launch of the run asks for, with the
arguments that were passed to it, whatever fails before, in between and afterwards. -/
theorem turns_faithful {r : Reader} {k : Kernel} (hk : Wrapper.ofKernel k r = .ok w)
    (hi : k.arguments.map Argument.index = List.range k.arguments.length)
    (hn : (w.slots.map Slot.name).Nodup) (Ls : List (Launch h w.slots)) (m : Machine) :
    ∃ ts m', w.turns h Ls m = some (ts, m') ∧ ts.map Turn.launch = Ls ∧
      m'.context.native.records = (ts.flatMap Turn.records).reverse ++ m.context.native.records ∧
      ∀ t ∈ ts, t.Faithful := by
  have hs := slotsFor_ofKernel hk
  have hapart : NamesApart w.slots := ⟨hn, fun t ht => name_notMem_ownNames hs ht⟩
  have hindex : w.slots.map Slot.index = List.range w.slots.length := by
    rw [hs.index, hs.length_eq, hi]
  -- The machine is any one, since a launch may leave some arguments set and others not.
  induction Ls generalizing m with
  | nil => exact ⟨[], m, rfl, rfl, rfl, fun t ht => absurd ht List.not_mem_nil⟩
  | cons L Ls ih =>
    obtain ⟨v, m₁, hl, hf, hr⟩ := launch_faithful hindex hapart L m
    obtain ⟨ts, m', ht, hL, hr', hfs⟩ := ih m₁
    refine ⟨⟨L, m, v, m₁⟩ :: ts, m', ?_, congrArg (L :: ·) hL, ?_, List.forall_mem_cons.2 ⟨hf, hfs⟩⟩
    · simp only [Wrapper.turns, hl, ht, Option.map_some]
    · rw [hr', hr, List.flatMap_cons, List.reverse_append, List.append_assoc]
      rfl

def fillSignature : KernelSignature where
  name := "fill"
  line := 1
  parameters :=
    [⟨"out", some .globalMem, false, false, "uint", 0, true⟩,
      ⟨"value", none, false, false, "uint", 0, false⟩]

def fourBytes : Target := ⟨⟨.absoluteOf ["rt"]⟩, fun _ => 4⟩

def fussy (rs : List Record) (c : Call) : Option Refusal :=
  if c.operation = .setArgument ∧ (rs.filter (·.call.operation == .setArgument)).length = 1 then
    some ⟨-50, ""⟩
  else none

theorem turns_faithful_fill :
    ∃ w, Wrapper.ofKernel (Kernel.ofSignature fillSignature) = .ok w ∧
      ∃ Ls : List (Launch fourBytes w.slots), Ls.map Launch.arguments =
          [[.memory 10, .bytes [1, 0, 0, 0]], [.memory 11, .bytes [2, 0, 0, 0]]] ∧
        ∃ ts m', w.turns fourBytes Ls ⟨⟨"fill", "", .prepared⟩, .start fussy⟩ = some (ts, m') ∧
          ts.map Turn.launch = Ls ∧
          m'.context.native.records =
            (ts.flatMap Turn.records).reverse ++ (Context.start fussy).native.records ∧
          ∀ t ∈ ts, t.Faithful := by
  have hb : (Wrapper.ofKernel (Kernel.ofSignature fillSignature)).toOption.map
      (fun w => (w.slots.map Slot.passing, w.slots.map Slot.name)) =
        some ([.buffer, .value], [.plain "out", .plain "value"]) := by
    decide +kernel
  cases hw : Wrapper.ofKernel (Kernel.ofSignature fillSignature) with
  | error e =>
    rw [hw] at hb
    cases hb
  | ok w =>
    rw [hw] at hb
    obtain ⟨hp, hn⟩ := Prod.mk.inj (Option.some.inj hb)
    have hpass : ∀ (m : Handle) (bs : List UInt8), bs.length = 4 →
        Passes fourBytes w.slots [.buffer m, .data bs] [.memory m, .bytes bs] := by
      intro m bs hl
      obtain ⟨t, ts, ht, h₁, hp⟩ := List.map_eq_cons_iff.1 hp
      obtain ⟨u, us, rfl, h₂, hp⟩ := List.map_eq_cons_iff.1 hp
      obtain rfl := List.map_eq_nil_iff.1 hp
      rw [ht]
      exact .cons (.buffer h₁) (.cons (.value h₂ hl) .nil)
    have hd : (w.slots.map Slot.name).Nodup := by
      rw [hn]
      decide
    exact ⟨w, rfl,
      [⟨false, ⟨1, 0⟩, _, _, [4], [0], [], hpass 10 [1, 0, 0, 0] rfl, by decide, rfl⟩,
        ⟨true, ⟨1, 0⟩, _, _, [4], [0], [], hpass 11 [2, 0, 0, 0] rfl, by decide, rfl⟩], rfl,
      turns_faithful hw (index_ofSignature fillSignature) hd _ _⟩

end Turns

end KernelWrap
