import KernelWrap.Proofs.Ownership

/-! The records of a dispatch. The kernel is bound first, then its native arguments are set, and last
it is enqueued; a dispatch stops at the first of these that fails. Native arguments stay as they
were set, also when a dispatch has stopped halfway. -/

namespace KernelWrap.Compute

def Record.sets? (x : Handle) (i : Nat) (r : Record) : Option NativeArgument :=
  match r with
  | ⟨.setArgument y j a, .done⟩ => if y = x ∧ j = i then some a else none
  | _ => none

/-- The native argument of a kernel at an index, which is the one that was set last, by the records
with the latest in front. -/
def argument? (rs : List Record) (x : Handle) (i : Nat) : Option NativeArgument :=
  rs.findSome? (Record.sets? x i)

def setDone (x : Handle) (p : Nat × NativeArgument) : Record := ⟨.setArgument x p.1 p.2, .done⟩

section Arguments

variable {x : Handle} {i : Nat}

theorem setDone_ne {as : List (Nat × NativeArgument)} {q : Record}
    (hq : q ∈ as.map (setDone x)) : q.call.operation ≠ .enqueue ∧ q.answer = .done := by
  obtain ⟨p, -, rfl⟩ := List.mem_map.1 hq
  exact ⟨fun e => Operation.noConfusion e, rfl⟩

theorem sets?_setDone (p : Nat × NativeArgument) :
    (setDone x p).sets? x i = if p.1 = i then some p.2 else none := by
  rw [setDone, Record.sets?]
  simp only [true_and]

theorem argument?_append (rs ss : List Record) :
    argument? (rs ++ ss) x i = (argument? rs x i).or (argument? ss x i) := List.findSome?_append

theorem argument?_setDone_of_notMem {as : List (Nat × NativeArgument)} (h : i ∉ as.map Prod.fst) :
    argument? (as.map (setDone x)).reverse x i = none := by
  refine List.findSome?_eq_none_iff.2 fun r hr => ?_
  obtain ⟨p, hp, rfl⟩ := List.mem_map.1 (List.mem_reverse.1 hr)
  have hne : p.1 ≠ i := fun e => h (e ▸ List.mem_map_of_mem hp)
  rw [sets?_setDone, if_neg hne]

theorem argument?_setDone_of_mem {as : List (Nat × NativeArgument)} (hn : (as.map Prod.fst).Nodup)
    {a : NativeArgument} (hm : (i, a) ∈ as) (rs : List Record) :
    argument? ((as.map (setDone x)).reverse ++ rs) x i = some a := by
  rw [argument?_append]
  suffices h : argument? (as.map (setDone x)).reverse x i = some a by rw [h, Option.some_or]
  -- The first one set is the last one looked at, behind all that were set later.
  induction as with
  | nil => cases hm
  | cons p as ih =>
    obtain ⟨hp, hn⟩ := List.nodup_cons.1 hn
    rw [List.map_cons, List.reverse_cons, argument?_append]
    rcases List.mem_cons.1 hm with rfl | hm
    · rw [argument?_setDone_of_notMem hp, Option.none_or, argument?, List.findSome?_singleton,
        sets?_setDone, if_pos rfl]
    · rw [ih hn hm, Option.some_or]

end Arguments

namespace Context

theorem perform_cases (c : Context) (call : Call) :
    (∃ c', c.perform call = (.ok (), c') ∧ Gains c.native c'.native [⟨call, .done⟩]) ∨
      (∃ why c', c.perform call = (.error (.native call.operation why.status), c') ∧
        Gains c.native c'.native [⟨call, .refused why⟩]) := by
  rcases c.native.perform_cases call with ⟨n, e, g⟩ | ⟨why, n, e, g⟩
  · refine .inl ⟨{ c with native := n }, ?_, g⟩
    rw [perform, e]
  · refine .inr ⟨why, { c with native := n }, ?_, g⟩
    rw [perform, e]

theorem issue_cases (c : Context) (call : Call) :
    (∃ h c', c.issue call = (.ok h, c') ∧ Gains c.native c'.native [⟨call, .issued h⟩]) ∨
      (∃ why c', c.issue call = (.error (.native call.operation why.status), c') ∧
        Gains c.native c'.native [⟨call, .refused why⟩]) := by
  rcases c.native.issue_cases call with ⟨h, n, e, g⟩ | ⟨why, n, e, g⟩
  · refine .inl ⟨h, { c with native := n }, ?_, g⟩
    rw [issue, e]
  · refine .inr ⟨why, { c with native := n }, ?_, g⟩
    rw [issue, e]

theorem setArguments_cases (c : Context) (x : Handle) (as : List (Nat × NativeArgument)) :
    (∃ c', c.setArguments x as = (.ok (), c') ∧ Gains c.native c'.native (as.map (setDone x))) ∨
      (∃ done i a rest why c', as = done ++ (i, a) :: rest ∧
        c.setArguments x as = (.error (.native .setArgument why.status), c') ∧
        Gains c.native c'.native
          (done.map (setDone x) ++ [⟨.setArgument x i a, .refused why⟩])) := by
  induction as generalizing c with
  | nil => exact .inl ⟨c, rfl, .refl _⟩
  | cons p as ih =>
    obtain ⟨i, a⟩ := p
    rcases c.perform_cases (.setArgument x i a) with ⟨c₁, e, g⟩ | ⟨why, c₁, e, g⟩
    · have hs : c.setArguments x ((i, a) :: as) = c₁.setArguments x as := by
        rw [setArguments, e]
      rw [hs]
      rcases ih c₁ with ⟨c', e', g'⟩ | ⟨done, j, b, rest, why, c', rfl, e', g'⟩
      · exact .inl ⟨c', e', g.trans g'⟩
      · exact .inr ⟨(i, a) :: done, j, b, rest, why, c', rfl, e', g.trans g'⟩
    · refine .inr ⟨[], i, a, as, why, c₁, rfl, ?_, g⟩
      rw [setArguments, e]
      rfl

theorem bind_cases (c : Context) (k : KernelObject) (q : Queue) :
    ∃ b k' c' bs, c.bind k q = (b, k', c') ∧ Gains c.native c'.native bs ∧
      (∀ r ∈ bs, r.call.operation ∈ [.buildProgram, .createKernel, .releaseProgram]) ∧
      ∀ x, b = .ok x → ∃ d p, k'.stage = .built d p x := by
  suffices h : ∃ b k' n bs, k.build q.device c.native = (b, k', n) ∧ Gains c.native n bs ∧
      (∀ r ∈ bs, r.call.operation ∈ [.buildProgram, .createKernel, .releaseProgram]) ∧
      ∀ x, b = .ok x → ∃ d p, k'.stage = .built d p x by
    obtain ⟨b, k', n, bs, e, h⟩ := h
    refine ⟨b, k', { c with native := n }, bs, ?_, h⟩
    rw [bind, e]
  rcases k.build_cases q.device c.native with ⟨d, p, x, hs, e⟩ | ⟨-, h⟩
  · refine ⟨_, _, _, [], e, .refl _, fun r hr => absurd hr List.not_mem_nil, fun y hy => ?_⟩
    split at hy
    · cases hy
      exact ⟨d, p, hs⟩
    · cases hy
  · rcases h with ⟨why, n, e, g⟩ | ⟨p, why, a, n, e, g⟩ | ⟨p, x, n, e, g⟩
    · exact ⟨_, _, _, _, e, g, by simp [Call.operation], by simp⟩
    · exact ⟨_, _, _, _, e, g, by simp [Call.operation], by simp⟩
    · refine ⟨_, _, _, _, e, g, by simp [Call.operation], fun y hy => ?_⟩
      cases hy
      exact ⟨q.device, p, rfl⟩

def enqueueCall (x : Handle) (q : Queue) (grid group : Extent) (es : List Event) (d : Nat) : Call :=
  .enqueue q.handle x (grid.axes.take d) (group.group? d) (es.map Event.handle)

theorem enqueue_cases (c : Context) (x : Handle) (q : Queue) (grid group : Extent)
    (es : List Event) :
    (grid.dimension? = none ∧ c.enqueue x q grid group es = (.error (.noGrid grid), c)) ∨
      ∃ d, grid.dimension? = some d ∧
        ((∃ e c', c.enqueue x q grid group es = (.ok e, c') ∧
            Gains c.native c'.native [⟨enqueueCall x q grid group es d, .issued e.handle⟩]) ∨
          (∃ why c', c.enqueue x q grid group es = (.error (.native .enqueue why.status), c') ∧
            Gains c.native c'.native [⟨enqueueCall x q grid group es d, .refused why⟩])) := by
  cases hd : grid.dimension? with
  | none =>
    refine .inl ⟨rfl, ?_⟩
    rw [enqueue, hd]
  | some d =>
    refine .inr ⟨d, rfl, ?_⟩
    rcases c.issue_cases (enqueueCall x q grid group es d) with ⟨h, c', e, g⟩ | ⟨why, c', e, g⟩
    · refine .inl ⟨⟨h, c'.holders.length⟩, { c' with holders := c'.holders ++ [1] }, ?_, g⟩
      rw [enqueueCall] at e
      simp only [enqueue, hd, e, own]
    · refine .inr ⟨why, c', ?_, g⟩
      rw [enqueueCall] at e
      simp only [enqueue, hd, e]
      rfl

theorem finish_gains (c : Context) (e : Event) : ∃ ws, Gains c.native (c.finish e).2.native ws ∧
    ∀ r ∈ ws, r.call.operation ∈ [.wait, .releaseEvent] := by
  have hdrop : ∀ c : Context, ∃ ws, Gains c.native (c.drop e).native ws ∧
      ∀ r ∈ ws, r.call.operation ∈ [.wait, .releaseEvent] := by
    intro c
    rw [drop]
    split
    · exact ⟨[], .refl _, fun r hr => absurd hr List.not_mem_nil⟩
    · obtain ⟨a, g⟩ := c.native.attempt_gains (.releaseEvent e.handle)
      exact ⟨_, g, by simp [Call.operation]⟩
    · exact ⟨[], .refl _, fun r hr => absurd hr List.not_mem_nil⟩
  have hwait : ∃ a, Gains c.native (c.wait e).2.native [⟨.wait [e.handle], a⟩] := by
    rcases c.perform_cases (.wait [e.handle]) with ⟨c', h, g⟩ | ⟨why, c', h, g⟩
    · rw [wait, h]
      exact ⟨_, g⟩
    · rw [wait, h]
      exact ⟨_, g⟩
  obtain ⟨a, g⟩ := hwait
  obtain ⟨ws, g', hw⟩ := hdrop (c.wait e).2
  refine ⟨_, g.trans g', fun r hr => ?_⟩
  rcases List.mem_append.1 hr with hr | hr
  · rw [List.mem_singleton.1 hr]
    exact List.mem_cons_self
  · exact hw r hr

end Context

/-- How a dispatch goes on when binding has ended in `b`: the records it adds, the first in front,
and the result. -/
inductive Course (q : Queue) (as : List (Nat × NativeArgument)) (grid group : Extent)
    (es : List Event) :
    Except KernelError Handle → List Record → Except KernelError Event → Prop
  | unbound {e : KernelError} : Course q as grid group es (.error e) [] (.error e)
  | refused {x : Handle} {done : List (Nat × NativeArgument)} {i : Nat} {a : NativeArgument}
      {rest : List (Nat × NativeArgument)} {why : Refusal} : as = done ++ (i, a) :: rest →
      Course q as grid group es (.ok x)
        (done.map (setDone x) ++ [⟨.setArgument x i a, .refused why⟩])
        (.error (.native .setArgument why.status))
  | noGrid {x : Handle} : grid.dimension? = none →
      Course q as grid group es (.ok x) (as.map (setDone x)) (.error (.noGrid grid))
  | enqueued {x : Handle} {d : Nat} {e : Event} : grid.dimension? = some d →
      Course q as grid group es (.ok x)
        (as.map (setDone x) ++ [⟨Context.enqueueCall x q grid group es d, .issued e.handle⟩]) (.ok e)
  | unqueued {x : Handle} {d : Nat} {why : Refusal} : grid.dimension? = some d →
      Course q as grid group es (.ok x)
        (as.map (setDone x) ++ [⟨Context.enqueueCall x q grid group es d, .refused why⟩])
        (.error (.native .enqueue why.status))

namespace Course

variable {q : Queue} {as : List (Nat × NativeArgument)} {grid group : Extent} {es : List Event}
  {b : Except KernelError Handle} {rs : List Record} {r : Except KernelError Event}

theorem of_error {e : KernelError} (h : Course q as grid group es (.error e) rs r) :
    rs = [] ∧ r = .error e := by
  cases h
  exact ⟨rfl, rfl⟩

theorem of_refused (h : Course q as grid group es b rs r) {x : Handle} {i : Nat}
    {a : NativeArgument} {why : Refusal} (hm : ⟨.setArgument x i a, .refused why⟩ ∈ rs) :
    r = .error (.native .setArgument why.status) ∧ ∀ p ∈ rs, p.call.operation ≠ .enqueue := by
  cases h with
  | unbound => cases hm
  | refused ha =>
    rcases List.mem_append.1 hm with hm | hm
    · cases (setDone_ne hm).2
    · cases List.mem_singleton.1 hm
      refine ⟨rfl, fun p hp => ?_⟩
      rcases List.mem_append.1 hp with hp | hp
      · exact (setDone_ne hp).1
      · rw [List.mem_singleton.1 hp]
        exact fun e => Operation.noConfusion e
  | noGrid hd => cases (setDone_ne hm).2
  | enqueued hd =>
    rcases List.mem_append.1 hm with hm | hm
    · cases (setDone_ne hm).2
    · cases List.mem_singleton.1 hm
  | unqueued hd =>
    rcases List.mem_append.1 hm with hm | hm
    · cases (setDone_ne hm).2
    · cases List.mem_singleton.1 hm

theorem of_noGrid {x : Handle} (h : Course q as grid group es (.ok x) rs r)
    (hall : ∀ p ∈ rs, p.call.operation = .setArgument → p.answer = .done)
    (hd : grid.dimension? = none) :
    r = .error (.noGrid grid) ∧ ∀ p ∈ rs, p.call.operation ≠ .enqueue := by
  cases h with
  | refused ha => cases hall _ (List.mem_append_right _ List.mem_cons_self) rfl
  | noGrid _ => exact ⟨rfl, fun p hp => (setDone_ne hp).1⟩
  | enqueued hd' => cases hd.symm.trans hd'
  | unqueued hd' => cases hd.symm.trans hd'

end Course

theorem Context.dispatch_cases (c : Context) (k : KernelObject) (q : Queue)
    (as : List (Nat × NativeArgument)) (grid group : Extent) (es : List Event) :
    ∃ b k' c₁ bs r c' rs, c.bind k q = (b, k', c₁) ∧
      (∀ r ∈ bs, r.call.operation ∈ [.buildProgram, .createKernel, .releaseProgram]) ∧
      (∀ x, b = .ok x → ∃ d p, k'.stage = .built d p x) ∧
      c.dispatch k q as grid group es = (r, k', c') ∧ Course q as grid group es b rs r ∧
      Gains c.native c'.native (bs ++ rs) := by
  obtain ⟨b, k', c₁, bs, hb, g, hbs, hx⟩ := c.bind_cases k q
  refine ⟨b, k', c₁, bs, ?_⟩
  cases b with
  | error e =>
    refine ⟨.error e, c₁, [], hb, hbs, hx, ?_, .unbound, g.trans (.refl _)⟩
    rw [dispatch, hb]
  | ok x =>
    rcases c₁.setArguments_cases x as with
      ⟨c₂, hs, gs⟩ | ⟨done, i, a, rest, why, c₂, ha, hs, gs⟩
    · rcases c₂.enqueue_cases x q grid group es with
        ⟨hd, he⟩ | ⟨d, hd, ⟨e, c₃, he, ge⟩ | ⟨why, c₃, he, ge⟩⟩
      · refine ⟨_, c₂, _, hb, hbs, hx, ?_, .noGrid hd, g.trans gs⟩
        simp only [dispatch, hb, hs, he]
      · refine ⟨_, c₃, _, hb, hbs, hx, ?_, .enqueued hd, g.trans (gs.trans ge)⟩
        simp only [dispatch, hb, hs, he]
      · refine ⟨_, c₃, _, hb, hbs, hx, ?_, .unqueued hd, g.trans (gs.trans ge)⟩
        simp only [dispatch, hb, hs, he]
    · refine ⟨_, c₂, _, hb, hbs, hx, ?_, .refused ha, g.trans gs⟩
      simp only [dispatch, hb, hs]

end KernelWrap.Compute
