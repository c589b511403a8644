import KernelWrap.Proofs.Dispatching
import Mathlib.Data.List.Count

/-! Events and their holders. The live events of a context are listed once for each holder. Every
event that was made is live or was released once, and what the runtime is asked to wait for is live.
Each operation on events keeps this: an enqueue makes an event with one holder, a clone adds a holder,
a drop takes one away and releases the event with the last. -/

namespace KernelWrap.Compute

def Call.awaits : Call → List Handle
  | enqueue _ _ _ _ es => es
  | wait es => es
  | _ => []

/-- No event is waited for before it was made or after it was released, by the records with the latest
in front. -/
def Awaited : List Record → Prop
  | [] => True
  | r :: rs => (∀ x ∈ r.call.awaits, x ∈ made .event rs ∧ x ∉ released .event rs) ∧ Awaited rs

def Native.IssuesFresh (n : Native) : Prop :=
  ∀ rs c, c.makes = some .event → n.choose rs c ∉ made .event rs

structure Record.Quiet (live : List Event) (r : Record) : Prop where
  made : made .event [r] = []
  released : released .event [r] = []
  awaits : ∀ x ∈ r.call.awaits, x ∈ live.map Event.handle

/-- The holders are those of the live events, and the records have made and released events
accordingly. -/
structure Shared (holders : List Nat) (rs : List Record) (live : List Event) : Prop where
  counted : ∀ e ∈ live, holders[e.share]? = some (live.count e)
  apart : ∀ e ∈ live, ∀ e' ∈ live, e.share = e'.share ∨ e.handle = e'.handle → e = e'
  issued : ∀ e ∈ live, e.handle ∈ made .event rs
  released : ∀ x ∈ made .event rs,
    (released .event rs).count x = if x ∈ live.map Event.handle then 0 else 1
  only : ∀ x ∈ Compute.released .event rs, x ∈ made .event rs
  awaited : Awaited rs

section Records

variable {live : List Event} {r : Record}

theorem quiet_of_operation (h : r.call.operation ∉ [.enqueue, .wait, .releaseEvent])
    (live : List Event) : r.Quiet live := by
  obtain ⟨call, answer⟩ := r
  cases call with
  | enqueue | wait | releaseEvent => exact absurd (by simp [Call.operation]) h
  | _ => exact ⟨rfl, rfl, fun x hx => absurd hx List.not_mem_nil⟩

theorem quiet_of_refused {call : Call} {why : Refusal} (h : call.makes = some .event)
    (ha : ∀ x ∈ call.awaits, x ∈ live.map Event.handle) :
    (⟨call, .refused why⟩ : Record).Quiet live := by
  cases call with
  | enqueue => exact ⟨rfl, rfl, ha⟩
  | _ => cases h

theorem quiet_wait {es : List Event} (h : es ⊆ live) (a : Answer) :
    (⟨.wait (es.map Event.handle), a⟩ : Record).Quiet live :=
  ⟨rfl, rfl, fun _ hx => List.map_subset _ h hx⟩

theorem Record.Quiet.mono {live' : List Event} (h : r.Quiet live) (hs : live ⊆ live') :
    r.Quiet live' := ⟨h.made, h.released, fun x hx => List.map_subset _ hs (h.awaits x hx)⟩

theorem made_cons (r : Record) (rs : List Record) :
    made .event (r :: rs) = made .event [r] ++ made .event rs := made_append .event [r] rs

theorem released_cons (r : Record) (rs : List Record) :
    released .event (r :: rs) = released .event [r] ++ released .event rs :=
  released_append .event [r] rs

theorem made_of_quiet {ss : List Record} (h : ∀ r ∈ ss, r.Quiet live) :
    made .event ss = [] ∧ released .event ss = [] := by
  induction ss with
  | nil => exact ⟨rfl, rfl⟩
  | cons r ss ih =>
    obtain ⟨hm, hr⟩ := ih fun s hs => h s (List.mem_cons_of_mem r hs)
    have hq := h r List.mem_cons_self
    rw [made_cons, released_cons, hm, hr, hq.made, hq.released]
    exact ⟨rfl, rfl⟩

end Records

namespace Shared

variable {holders : List Nat} {rs : List Record} {live : List Event} {e : Event}

theorem start : Shared [] [] [] :=
  ⟨by simp, by simp, by simp, by simp [made], by simp [Compute.released], trivial⟩

theorem awaitable (h : Shared holders rs live) {x : Handle} (hx : x ∈ live.map Event.handle) :
    x ∈ made .event rs ∧ x ∉ Compute.released .event rs := by
  obtain ⟨e, he, rfl⟩ := List.mem_map.1 hx
  have hm := h.issued e he
  have hcount := h.released _ hm
  rw [if_pos hx] at hcount
  exact ⟨hm, List.count_eq_zero.1 hcount⟩

theorem quiet (h : Shared holders rs live) {r : Record} (hq : r.Quiet live) :
    Shared holders (r :: rs) live := by
  have hm : made .event (r :: rs) = made .event rs := by rw [made_cons, hq.made, List.nil_append]
  have hr : Compute.released .event (r :: rs) = Compute.released .event rs := by
    rw [released_cons, hq.released, List.nil_append]
  refine ⟨h.counted, h.apart, ?_, ?_, ?_, fun x hx => h.awaitable (hq.awaits x hx), h.awaited⟩
  · rw [hm]
    exact h.issued
  · rw [hm, hr]
    exact h.released
  · rw [hm, hr]
    exact h.only

theorem quiets (h : Shared holders rs live) {ss : List Record} (hq : ∀ r ∈ ss, r.Quiet live) :
    Shared holders (ss.reverse ++ rs) live := by
  induction ss generalizing rs with
  | nil => exact h
  | cons r ss ih =>
    rw [List.reverse_cons, List.append_assoc]
    exact ih (h.quiet (hq r List.mem_cons_self)) fun s hs => hq s (List.mem_cons_of_mem r hs)

theorem issue (h : Shared holders rs live) {call : Call} {x : Handle}
    (hc : call.makes = some .event) (hx : x ∉ made .event rs)
    (ha : ∀ y ∈ call.awaits, y ∈ live.map Event.handle) :
    Shared (holders ++ [1]) (⟨call, .issued x⟩ :: rs) (⟨x, holders.length⟩ :: live) := by
  have hm : made .event (⟨call, .issued x⟩ :: rs) = x :: made .event rs := by
    rw [made_cons]
    cases call <;> first | rfl | cases hc
  have hr : Compute.released .event (⟨call, .issued x⟩ :: rs) = Compute.released .event rs := by
    rw [released_cons]
    cases call <;> first | rfl | cases hc
  have hlt : ∀ e ∈ live, e.share < holders.length := fun e he =>
    (List.getElem?_eq_some_iff.1 (h.counted e he)).1
  have hnew : ∀ e ∈ live, (⟨x, holders.length⟩ : Event) ≠ e := by
    rintro e he rfl
    exact Nat.lt_irrefl _ (hlt _ he)
  have hhandle : ∀ e ∈ live, e.handle ≠ x := fun e he hex => hx (hex ▸ h.issued e he)
  refine ⟨?_, ?_, ?_, ?_, ?_, fun y hy => h.awaitable (ha y hy), h.awaited⟩
  · refine List.forall_mem_cons.2 ⟨?_, fun e he => ?_⟩
    · have hn : (⟨x, holders.length⟩ : Event) ∉ live := fun hm => hnew _ hm rfl
      rw [List.count_cons_self, List.count_eq_zero.2 hn]
      exact List.getElem?_concat_length
    · rw [List.count_cons_of_ne (hnew e he), List.getElem?_append_left (hlt e he)]
      exact h.counted e he
  · refine List.forall_mem_cons.2 ⟨List.forall_mem_cons.2 ⟨fun _ => rfl, fun e he hs => ?_⟩,
      fun e he => List.forall_mem_cons.2 ⟨fun hs => ?_, h.apart e he⟩⟩
    · exact absurd hs (not_or.2 ⟨Nat.ne_of_gt (hlt e he), (hhandle e he).symm⟩)
    · exact absurd hs (not_or.2 ⟨Nat.ne_of_lt (hlt e he), hhandle e he⟩)
  · rw [hm]
    exact List.forall_mem_cons.2 ⟨List.mem_cons_self, fun e he => List.mem_cons_of_mem x (h.issued e he)⟩
  · rw [hm, hr, List.map_cons]
    refine List.forall_mem_cons.2 ⟨?_, fun y hy => ?_⟩
    · rw [if_pos List.mem_cons_self]
      exact List.count_eq_zero.2 fun hm => hx (h.only x hm)
    · have hne : y ≠ x := fun e => hx (e ▸ hy)
      rw [h.released y hy]
      simp only [List.mem_cons, hne, false_or]
  · rw [hm, hr]
    exact fun y hy => List.mem_cons_of_mem x (h.only y hy)

theorem clone (h : Shared holders rs live) (he : e ∈ live) :
    Shared (holders.set e.share (live.count e + 1)) rs (e :: live) := by
  have hlt : e.share < holders.length := (List.getElem?_eq_some_iff.1 (h.counted e he)).1
  have hmem : ∀ e' ∈ e :: live, e' ∈ live := List.forall_mem_cons.2 ⟨he, fun _ h => h⟩
  refine ⟨fun e' he' => ?_, fun a ha b hb => h.apart a (hmem a ha) b (hmem b hb),
    fun e' he' => h.issued e' (hmem e' he'), fun x hx => ?_, h.only, h.awaited⟩
  · by_cases hee : e = e'
    · subst hee
      rw [List.getElem?_set_self hlt, List.count_cons_self]
    · have hs : e.share ≠ e'.share := fun hs => hee (h.apart e he e' (hmem e' he') (.inl hs))
      rw [List.getElem?_set_ne hs, List.count_cons_of_ne hee]
      exact h.counted e' (hmem e' he')
  · have hiff : x ∈ (e :: live).map Event.handle ↔ x ∈ live.map Event.handle := by
      rw [List.map_cons, List.mem_cons, or_iff_right_iff_imp]
      rintro rfl
      exact List.mem_map_of_mem he
    rw [h.released x hx]
    simp only [hiff]

theorem counted_erase (h : Shared holders rs live) (he : e ∈ live) {n : Nat}
    (hn : live.count e = n + 1) :
    ∀ e' ∈ live.erase e, (holders.set e.share n)[e'.share]? = some ((live.erase e).count e') := by
  intro e' he'
  have hlt : e.share < holders.length := (List.getElem?_eq_some_iff.1 (h.counted e he)).1
  have hmem : e' ∈ live := List.mem_of_mem_erase he'
  by_cases hee : e' = e
  · subst hee
    rw [List.getElem?_set_self hlt, List.count_erase_self, hn, Nat.add_sub_cancel]
  · have hs : e.share ≠ e'.share := fun hs => hee (h.apart e he e' hmem (.inl hs)).symm
    rw [List.getElem?_set_ne hs, List.count_erase_of_ne hee]
    exact h.counted e' hmem

theorem drop (h : Shared holders rs live) (he : e ∈ live) {n : Nat} (hn : live.count e = n + 2) :
    Shared (holders.set e.share (n + 1)) rs (live.erase e) := by
  have hmem : ∀ e' ∈ live.erase e, e' ∈ live := fun _ => List.mem_of_mem_erase
  have hstays : e ∈ live.erase e := by
    rw [← List.count_pos_iff, List.count_erase_self, hn]
    omega
  refine ⟨h.counted_erase he hn, fun a ha b hb => h.apart a (hmem a ha) b (hmem b hb),
    fun e' he' => h.issued e' (hmem e' he'), fun x hx => ?_, h.only, h.awaited⟩
  have hiff : x ∈ (live.erase e).map Event.handle ↔ x ∈ live.map Event.handle := by
    refine ⟨fun hx => List.map_subset _ List.erase_subset hx, fun hx => ?_⟩
    obtain ⟨e', he', rfl⟩ := List.mem_map.1 hx
    by_cases hee : e' = e
    · exact List.mem_map_of_mem (hee ▸ hstays)
    · exact List.mem_map_of_mem ((List.mem_erase_of_ne hee).2 he')
  rw [h.released x hx]
  simp only [hiff]

theorem dropLast (h : Shared holders rs live) (he : e ∈ live) (hn : live.count e = 1) (a : Answer) :
    Shared (holders.set e.share 0) (⟨.releaseEvent e.handle, a⟩ :: rs) (live.erase e) := by
  have hmem : ∀ e' ∈ live.erase e, e' ∈ live := fun _ => List.mem_of_mem_erase
  have hgone : e ∉ live.erase e := by
    rw [← List.count_eq_zero, List.count_erase_self, hn]
  have hm : made .event (⟨.releaseEvent e.handle, a⟩ :: rs) = made .event rs := rfl
  have hr : Compute.released .event (⟨.releaseEvent e.handle, a⟩ :: rs) =
      e.handle :: Compute.released .event rs := rfl
  refine ⟨h.counted_erase he hn, fun a ha b hb => h.apart a (hmem a ha) b (hmem b hb),
    fun e' he' => h.issued e' (hmem e' he'), fun x hx => ?_, fun x hx => ?_,
    fun x hx => absurd hx List.not_mem_nil, h.awaited⟩
  · rw [hr]
    by_cases hxe : x = e.handle
    · subst hxe
      have hcount := h.released e.handle hx
      rw [if_pos (List.mem_map_of_mem he)] at hcount
      have hnot : e.handle ∉ (live.erase e).map Event.handle := by
        intro hm
        obtain ⟨e', he', hh⟩ := List.mem_map.1 hm
        exact hgone (h.apart e' (hmem e' he') e he (.inr hh) ▸ he')
      rw [List.count_cons_self, hcount, if_neg hnot]
    · have hiff : x ∈ (live.erase e).map Event.handle ↔ x ∈ live.map Event.handle := by
        refine ⟨fun hx => List.map_subset _ List.erase_subset hx, fun hx => ?_⟩
        obtain ⟨e', he', rfl⟩ := List.mem_map.1 hx
        have hee : e' ≠ e := fun hee => hxe (congrArg Event.handle hee)
        exact List.mem_map_of_mem ((List.mem_erase_of_ne hee).2 he')
      rw [List.count_cons_of_ne (Ne.symm hxe), h.released x hx]
      simp only [hiff]
  · rw [hm]
    rcases List.mem_cons.1 hx with rfl | hx
    · exact h.issued e he
    · exact h.only x hx

end Shared

namespace Context

section Dispatch

theorem perform_holders (c : Context) (call : Call) : (c.perform call).2.holders = c.holders := by
  unfold perform
  split <;> rfl

theorem setArguments_holders (c : Context) (x : Handle) (as : List (Nat × NativeArgument)) :
    (c.setArguments x as).2.holders = c.holders := by
  induction as generalizing c with
  | nil => rfl
  | cons p as ih =>
    have hp := c.perform_holders (.setArgument x p.1 p.2)
    unfold setArguments
    split
    · next e c' he =>
      rw [he] at hp
      exact hp
    · next c' he =>
      rw [he] at hp
      exact (ih c').trans hp

theorem issue_eq_ok {c c' : Context} {call : Call} {x : Handle} (h : c.issue call = (.ok x, c')) :
    x = c.native.choose c.native.records call ∧ c'.holders = c.holders := by
  unfold issue Native.issue at h
  cases hr : c.native.refuse c.native.records call with
  | some why =>
    rw [hr] at h
    cases h
  | none =>
    rw [hr] at h
    cases h
    exact ⟨rfl, rfl⟩

theorem issue_error_holders {c c' : Context} {call : Call} {e : KernelError}
    (h : c.issue call = (.error e, c')) : c'.holders = c.holders := by
  unfold issue at h
  split at h <;> cases h
  rfl

structure Quietly (es : List Event) (c c' : Context) (front : List Record) : Prop where
  holders : c'.holders = c.holders
  gains : Gains c.native c'.native front
  quiet : ∀ p ∈ front, p.Quiet es

theorem Quietly.trans {es : List Event} {c c₁ c₂ : Context} {rs ss : List Record}
    (h : Quietly es c c₁ rs) (h' : Quietly es c₁ c₂ ss) : Quietly es c c₂ (rs ++ ss) where
  holders := h'.holders.trans h.holders
  gains := h.gains.trans h'.gains
  quiet := List.forall_mem_append.2 ⟨h.quiet, h'.quiet⟩

theorem bind_quietly (c : Context) (k : KernelObject) (q : Queue) (es : List Event) :
    ∃ front, Quietly es c (c.bind k q).2.2 front := by
  obtain ⟨b, k', c', bs, hb, g, hbs, -⟩ := c.bind_cases k q
  have ho : ∀ o ∈ [Operation.buildProgram, .createKernel, .releaseProgram],
      o ∉ [Operation.enqueue, .wait, .releaseEvent] := by decide
  refine ⟨bs, ?_, by rw [hb]; exact g, fun p hp => quiet_of_operation (ho _ (hbs p hp)) es⟩
  rw [bind]

theorem setArguments_quietly (c : Context) (x : Handle) (as : List (Nat × NativeArgument))
    (es : List Event) : ∃ front, Quietly es c (c.setArguments x as).2 front := by
  have hset : ∀ i a w, (⟨.setArgument x i a, w⟩ : Record).Quiet es :=
    fun i a w => quiet_of_operation (show Operation.setArgument ∉ _ by decide) es
  have hsets : ∀ done : List (Nat × NativeArgument), ∀ p ∈ done.map (setDone x), p.Quiet es := by
    intro done p hp
    obtain ⟨a, -, rfl⟩ := List.mem_map.1 hp
    exact hset a.1 a.2 .done
  have hh := c.setArguments_holders x as
  rcases c.setArguments_cases x as with ⟨c', hs, g⟩ | ⟨done, i, a, rest, why, c', -, hs, g⟩
  · exact ⟨_, hh, by rw [hs]; exact g, hsets as⟩
  · exact ⟨_, hh, by rw [hs]; exact g,
      List.forall_mem_append.2 ⟨hsets done, List.forall_mem_singleton.2 (hset i a _)⟩⟩

/-- A call makes an event that has one holder, after records that leave the events alone. -/
structure Issues (es : List Event) (c c' : Context) (front : List Record) (call : Call)
    (x : Handle) : Prop where
  holders : c'.holders = c.holders ++ [1]
  gains : Gains c.native c'.native (front ++ [⟨call, .issued x⟩])
  quiet : ∀ p ∈ front, p.Quiet es
  makes : call.makes = some .event
  awaits : call.awaits = es.map Event.handle
  chosen : x = c.native.choose (front.reverse ++ c.native.records) call

theorem Quietly.issues {es : List Event} {c c₁ c₂ : Context} {rs ss : List Record} {call : Call}
    {x : Handle} (h : Quietly es c c₁ rs) (h' : Issues es c₁ c₂ ss call x) :
    Issues es c c₂ (rs ++ ss) call x where
  holders := by rw [h'.holders, h.holders]
  gains := by
    rw [List.append_assoc]
    exact h.gains.trans h'.gains
  quiet := List.forall_mem_append.2 ⟨h.quiet, h'.quiet⟩
  makes := h'.makes
  awaits := h'.awaits
  chosen := by
    rw [h'.chosen, h.gains.choose, h.gains.records, List.reverse_append, List.append_assoc]

theorem enqueue_shares (c : Context) (x : Handle) (q : Queue) (grid group : Extent)
    (es : List Event) :
    (∃ e c' front, c.enqueue x q grid group es = (.error e, c') ∧ Quietly es c c' front) ∨
      ∃ y c' front call, c.enqueue x q grid group es = (.ok ⟨y, c.holders.length⟩, c') ∧
        Issues es c c' front call y := by
  cases hd : grid.dimension? with
  | none =>
    refine .inl ⟨.noGrid grid, c, [], ?_, rfl, .refl _, fun p hp => absurd hp List.not_mem_nil⟩
    rw [enqueue, hd]
  | some d =>
    have hawaits : (enqueueCall x q grid group es d).awaits = es.map Event.handle := rfl
    rcases c.issue_cases (enqueueCall x q grid group es d) with ⟨y, c₁, he, g⟩ | ⟨why, c₁, he, g⟩
    · obtain ⟨hy, hh⟩ := issue_eq_ok he
      refine .inr ⟨y, { c₁ with holders := c₁.holders ++ [1] }, [], _, ?_,
        congrArg (· ++ [1]) hh, g, fun p hp => absurd hp List.not_mem_nil, rfl, hawaits, hy⟩
      rw [enqueueCall] at he
      simp only [enqueue, hd, he, own, hh]
    · refine .inl ⟨.native .enqueue why.status, c₁, _, ?_, issue_error_holders he, g,
        List.forall_mem_singleton.2 (quiet_of_refused rfl fun y hy => hawaits ▸ hy)⟩
      rw [enqueueCall] at he
      simp only [enqueue, hd, he]
      rfl

theorem dispatch_shares (c : Context) (k : KernelObject) (q : Queue)
    (as : List (Nat × NativeArgument)) (grid group : Extent) (es : List Event) :
    (∃ e k' c' front, c.dispatch k q as grid group es = (.error e, k', c') ∧
        Quietly es c c' front) ∨
      ∃ y k' c' front call,
        c.dispatch k q as grid group es = (.ok ⟨y, c.holders.length⟩, k', c') ∧
          Issues es c c' front call y := by
  obtain ⟨bs, hb⟩ := c.bind_quietly k q es
  rw [dispatch]
  generalize c.bind k q = bound at hb ⊢
  obtain ⟨e | x, k', c₁⟩ := bound
  · exact .inl ⟨e, k', c₁, bs, rfl, hb⟩
  obtain ⟨ss, hs⟩ := c₁.setArguments_quietly x as es
  dsimp only at hb ⊢
  generalize c₁.setArguments x as = set at hs ⊢
  obtain ⟨e | _, c₂⟩ := set
  · exact .inl ⟨e, k', c₂, _, rfl, hb.trans hs⟩
  dsimp only at hs ⊢
  have hready := hb.trans hs
  obtain ⟨e, c₃, front, he, h⟩ | ⟨y, c₃, front, call, he, h⟩ :=
    c₂.enqueue_shares x q grid group es
  · exact .inl ⟨e, k', c₃, _, by rw [he], hready.trans h⟩
  · exact .inr ⟨y, k', c₃, _, call, by rw [he, hready.holders], hready.issues h⟩

theorem finish_shares {c : Context} {e : Event} (h : c.holders[e.share]? = some 1) :
    ∃ r c' a b, c.finish e = (r, c') ∧ c'.holders = c.holders.set e.share 0 ∧
      Gains c.native c'.native [⟨.wait [e.handle], a⟩, ⟨.releaseEvent e.handle, b⟩] ∧
      ∀ why, a = .refused why → r = .error (.native .wait why.status) := by
  have hw := c.perform_holders (.wait [e.handle])
  have hdrop : ∀ c' : Context, c'.holders = c.holders →
      ∃ b, Gains c'.native (c'.drop e).native [⟨.releaseEvent e.handle, b⟩] ∧
        (c'.drop e).holders = c.holders.set e.share 0 := by
    intro c' hc
    have h1 : c'.holdersOf e = 1 := by rw [holdersOf, hc, h, Option.getD_some]
    obtain ⟨b, g⟩ := c'.native.attempt_gains (.releaseEvent e.handle)
    refine ⟨b, ?_, ?_⟩
    · rw [drop, h1]
      exact g
    · rw [drop, h1, hc]
  rcases c.perform_cases (.wait [e.handle]) with ⟨c₁, hp, g⟩ | ⟨why, c₁, hp, g⟩
  · rw [hp] at hw
    obtain ⟨b, g', hd⟩ := hdrop c₁ hw
    refine ⟨.ok (), c₁.drop e, .done, b, ?_, hd, g.trans g', fun why hy => by cases hy⟩
    rw [finish, wait, hp]
  · rw [hp] at hw
    obtain ⟨b, g', hd⟩ := hdrop c₁ hw
    refine ⟨.error (.native .wait why.status), c₁.drop e, .refused why, b, ?_, hd, g.trans g',
      fun why' hy => ?_⟩
    · rw [finish, wait, hp]
      rfl
    · cases hy
      rfl

end Dispatch

section Sharing

def Keeps (c : Context) (live : List Event) : Prop := Shared c.holders c.native.records live

variable {c : Context} {live : List Event} {e : Event}

theorem Keeps.holdersOf (h : c.Keeps live) (he : e ∈ live) : c.holdersOf e = live.count e := by
  rw [Context.holdersOf, h.counted e he, Option.getD_some]

theorem Keeps.quiets (h : c.Keeps live) {c' : Context} {rs : List Record}
    (hn : c'.holders = c.holders) (g : Gains c.native c'.native rs) (hq : ∀ r ∈ rs, r.Quiet live) :
    c'.Keeps live := by
  rw [Keeps, hn, g.records]
  exact Shared.quiets h hq

theorem Keeps.issue (h : c.Keeps live) (hf : c.native.IssuesFresh) {es : List Event} {c' : Context}
    {front : List Record} {call : Call} {x : Handle} (hi : Issues es c c' front call x)
    (hes : es ⊆ live) : c'.Keeps (⟨x, c.holders.length⟩ :: live) := by
  have hfresh : x ∉ made .event (front.reverse ++ c.native.records) :=
    hi.chosen ▸ hf _ _ hi.makes
  have hawaits : ∀ y ∈ call.awaits, y ∈ live.map Event.handle := fun y hy =>
    List.map_subset _ hes (hi.awaits ▸ hy)
  have hquiet := Shared.quiets h fun p hp => (hi.quiet p hp).mono hes
  rw [Keeps, hi.holders, hi.gains.records, List.reverse_append, List.append_assoc]
  exact hquiet.issue hi.makes hfresh hawaits

theorem Keeps.finish (h : c.Keeps (e :: live)) (hone : c.holders[e.share]? = some 1) :
    ∃ r c' a b, c.finish e = (r, c') ∧ c'.Keeps live ∧
      Gains c.native c'.native [⟨.wait [e.handle], a⟩, ⟨.releaseEvent e.handle, b⟩] ∧
      ∀ why, a = .refused why → r = .error (.native .wait why.status) := by
  have hmem : e ∈ e :: live := List.mem_cons_self
  have hcount := Option.some.inj ((h.counted e hmem).symm.trans hone)
  obtain ⟨r, c', a, b, hfin, hh, g, hres⟩ := finish_shares hone
  refine ⟨r, c', a, b, hfin, ?_, g, hres⟩
  have hwaited := Shared.quiet h (quiet_wait (List.cons_subset.2 ⟨hmem, List.nil_subset _⟩) a)
  have hdropped := hwaited.dropLast hmem hcount b
  rw [List.erase_cons_head] at hdropped
  rw [Keeps, hh, g.records]
  exact hdropped

theorem Keeps.clone (h : c.Keeps live) (he : e ∈ live) : (c.clone e).Keeps (e :: live) := by
  have hs := Shared.clone h he
  rwa [← h.holdersOf he] at hs

theorem Keeps.drop (h : c.Keeps live) (he : e ∈ live) : (c.drop e).Keeps (live.erase e) ∧
    ∃ a, Gains c.native (c.drop e).native
      (if live.count e = 1 then [⟨.releaseEvent e.handle, a⟩] else []) := by
  have hc := h.holdersOf he
  have hpos := List.count_pos_iff.2 he
  rw [Context.drop]
  split
  · omega
  · next h1 =>
    have h1' : live.count e = 1 := hc.symm.trans h1
    obtain ⟨a, g⟩ := c.native.attempt_gains (.releaseEvent e.handle)
    refine ⟨?_, a, by rwa [if_pos h1']⟩
    have hs := Shared.dropLast h he h1' a
    rw [Keeps, g.records]
    exact hs
  · next n h2 =>
    have h2' : live.count e = n + 2 := hc.symm.trans h2
    refine ⟨Shared.drop h he h2', .done, ?_⟩
    rw [if_neg (by omega)]
    exact .refl _

theorem Keeps.awaits (h : c.Keeps live) {es : List Event} (hes : es ⊆ live) :
    (c.perform (.wait (es.map Event.handle))).2.Keeps live ∧
      (c.perform (.wait (es.map Event.handle))).2.native.choose = c.native.choose := by
  have hn := c.perform_holders (.wait (es.map Event.handle))
  have hq := fun a => List.forall_mem_singleton.2 (quiet_wait hes a)
  rcases c.perform_cases (.wait (es.map Event.handle)) with ⟨c', hp, g⟩ | ⟨why, c', hp, g⟩
  · rw [hp] at hn ⊢
    exact ⟨h.quiets hn g (hq _), g.choose⟩
  · rw [hp] at hn ⊢
    exact ⟨h.quiets hn g (hq _), g.choose⟩

end Sharing

end Context

end KernelWrap.Compute
