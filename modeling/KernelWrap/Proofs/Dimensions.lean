import KernelWrap.Proofs.Launches

/-! The grids that launches run over. A run method fills the sizes it is given up by zeros, and how
many dimensions there are is read off the zeros again. Zeros at the end of a grid that was given look
like those that fill it up: the kernel is enqueued over the dimensions in front of them, and not
refused. Every other grid is enqueued as it was given or not at all. -/

namespace KernelWrap
open Declaration Host Compute

section Grids

def leading (ns : List Nat) : List Nat := ns.takeWhile (· != 0)

/-- A size that ends in zeros behind components that are not zero. -/
def Shortened (ns : List Nat) : Prop := ∃ p n, p ≠ [] ∧ 0 ∉ p ∧ ns = p ++ List.replicate (n + 1) 0

theorem leading_eq_self_iff {ns : List Nat} : leading ns = ns ↔ 0 ∉ ns := by
  rw [leading, List.takeWhile_eq_self_iff]
  refine ⟨fun h hm => ?_, fun h n hn => bne_iff_ne.2 fun e => h (e ▸ hn)⟩
  have := h 0 hm
  cases this

theorem zero_notMem_leading (ns : List Nat) : 0 ∉ leading ns := fun h => by
  have := List.mem_takeWhile_imp h
  cases this

theorem dimension?_filled {ns : List Nat} (hn : ns.length ∈ [1, 2, 3]) :
    (filled ns).dimension? =
      if leading ns ≠ [] ∧ ∀ n ∈ ns.drop (leading ns).length, n = 0 then
        some (leading ns).length
      else none := by
  match ns, hn with
  | [x], _ => rcases x with _ | x <;> simp [filled, Extent.dimension?, leading]
  | [x, y], _ =>
    rcases x with _ | x <;> rcases y with _ | y <;> simp [filled, Extent.dimension?, leading]
  | [x, y, z], _ =>
    rcases x with _ | x <;> rcases y with _ | y <;> rcases z with _ | z <;>
      simp [filled, Extent.dimension?, leading]

theorem take_axes_filled {ns : List Nat} {d : Nat} (hn : ns.length ∈ [1, 2, 3]) (hd : d ≤ ns.length) :
    (filled ns).axes.take d = ns.take d := by
  match ns, hn with
  | [x], _ => match d, hd with
    | 0, _ | 1, _ => rfl
  | [x, y], _ => match d, hd with
    | 0, _ | 1, _ | 2, _ => rfl
  | [x, y, z], _ => rfl

theorem not_shortened_zero (ns : List Nat) : ¬Shortened (0 :: ns) := by
  rintro ⟨p, n, hp, h0, e⟩
  obtain ⟨a, p, rfl⟩ := List.exists_cons_of_ne_nil hp
  obtain ⟨rfl, -⟩ := List.cons.inj e
  exact h0 List.mem_cons_self

theorem dimension?_filled_eq_none {ns : List Nat} (hn : ns.length ∈ [1, 2, 3]) (h0 : 0 ∈ ns)
    (hs : ¬Shortened ns) : (filled ns).dimension? = none := by
  rw [dimension?_filled hn, if_neg]
  rintro ⟨hp, hz⟩
  refine hs ⟨leading ns, (ns.drop (leading ns).length).length - 1, hp, zero_notMem_leading ns, ?_⟩
  have hsplit : leading ns ++ ns.drop (leading ns).length = ns :=
    List.prefix_iff_eq_append.1 (List.takeWhile_prefix _)
  have hne : ns.drop (leading ns).length ≠ [] := fun e => by
    rw [e, List.append_nil] at hsplit
    exact leading_eq_self_iff.1 hsplit h0
  have hrep : ns.drop (leading ns).length =
      List.replicate (ns.drop (leading ns).length).length 0 := List.eq_replicate_length.2 hz
  rw [Nat.sub_add_cancel (List.length_pos_iff.2 hne), ← hrep, hsplit]

end Grids

section Turns

variable {w : Wrapper} {h : Target}

/-- The group size that is handed to the runtime: the given one, or none where it is all zeros. -/
def groupSize (ns : List Nat) : Option (List Nat) := if ns.all (· == 0) then none else some ns

namespace Turn.Went

variable {t : Turn h w.slots} {b : Except KernelError Handle} {r : Except KernelError Event}
  {bs rs ws : List Record}

theorem exists_enqueueCall (g : t.Went b r bs rs ws) {q : Record} (hq : q ∈ t.records)
    (ho : q.call.operation = .enqueue) :
    ∃ x d, (filled t.launch.grid).dimension? = some d ∧ q.call = Context.enqueueCall x t.launch.queue
      (filled t.launch.grid) (filled t.launch.group) t.launch.waitList d := by
  have hm := g.mem_of_operation hq (.inl ho)
  cases g.course with
  | unbound => cases hm
  | refused ha =>
    rcases List.mem_append.1 hm with hm | hm
    · exact absurd ho (setDone_ne hm).1
    · rw [List.mem_singleton.1 hm] at ho
      cases ho
  | noGrid hd => exact absurd ho (setDone_ne hm).1
  | @enqueued x d e hd =>
    rcases List.mem_append.1 hm with hm | hm
    · exact absurd ho (setDone_ne hm).1
    · exact ⟨x, d, hd, by rw [List.mem_singleton.1 hm]⟩
  | @unqueued x d why hd =>
    rcases List.mem_append.1 hm with hm | hm
    · exact absurd ho (setDone_ne hm).1
    · exact ⟨x, d, hd, by rw [List.mem_singleton.1 hm]⟩

theorem enqueue_eq (g : t.Went b r bs rs ws) {q : Record} (hq : q ∈ t.records)
    (ho : q.call.operation = .enqueue) :
    (filled t.launch.grid).dimension? = some (leading t.launch.grid).length ∧
      ∃ x, q.call = .enqueue t.launch.queue.handle x (leading t.launch.grid)
        (groupSize (t.launch.group.take (leading t.launch.grid).length))
        (t.launch.waitList.map Event.handle) := by
  obtain ⟨x, d, hd, hc⟩ := g.exists_enqueueCall hq ho
  have hdim := dimension?_filled t.launch.dimensions
  rw [hd] at hdim
  obtain rfl : d = (leading t.launch.grid).length := by
    split at hdim
    · exact Option.some.inj hdim
    · cases hdim
  have hlead : leading t.launch.grid <+: t.launch.grid := List.takeWhile_prefix _
  refine ⟨hd, x, ?_⟩
  rw [hc, Context.enqueueCall, take_axes_filled t.launch.dimensions hlead.length_le,
    ← List.prefix_iff_eq_take.1 hlead, Extent.group?,
    take_axes_filled (t.launch.sameLength ▸ t.launch.dimensions)
      (t.launch.sameLength ▸ hlead.length_le)]
  rfl

theorem result_of_none (g : t.Went b r bs rs ws) (hd : (filled t.launch.grid).dimension? = none)
    (hb : b.isOk) (hall : ∀ q ∈ t.records, ∀ why, q.answer ≠ .refused why) :
    t.result = .error (.noGrid (filled t.launch.grid)) := by
  refine g.result _ ?_
  cases g.course with
  | unbound => cases hb
  | @refused x done i a rest why ha =>
    refine absurd rfl (hall ⟨.setArgument x i a, .refused why⟩ ?_ why)
    rw [g.records_eq]
    exact List.mem_append_left ws (List.mem_append_right bs (List.mem_append_right _ List.mem_cons_self))
  | noGrid _ => rfl
  | enqueued hd' => cases hd.symm.trans hd'
  | unqueued hd' => cases hd.symm.trans hd'

end Turn.Went

/-- A launch over a grid that does not end in zeros behind other components enqueues the kernel over
just this grid, in groups of the given size unless that is all zeros. When the grid has a zero it
enqueues nothing, and if the kernel is bound and the runtime refuses nothing it ends with the error
that there is no grid. -/
theorem launch_dimensions {s : Reader} {k : Kernel} (hk : Wrapper.ofKernel k s = .ok w)
    (hn : (w.slots.map Slot.name).Nodup) (L : Launch h w.slots) (hs : ¬Shortened L.grid)
    (m : Machine) :
    ∃ v m', w.launch h L m = some (v, m') ∧
      (∀ r ∈ since m.context.native m'.context.native, r.call.operation = .enqueue →
        ∃ x, r.call = .enqueue L.queue.handle x L.grid (groupSize L.group)
          (L.waitList.map Event.handle)) ∧
      (0 ∈ L.grid →
        (∀ r ∈ since m.context.native m'.context.native, r.call.operation ≠ .enqueue) ∧
        ((m.context.bind m.object L.queue).1.isOk →
          (∀ r ∈ since m.context.native m'.context.native, ∀ why, r.answer ≠ .refused why) →
            v = .error (.noGrid (filled L.grid)))) := by
  have hslots := slotsFor_ofKernel hk
  have hapart : NamesApart w.slots := ⟨hn, fun t ht => name_notMem_ownNames hslots ht⟩
  obtain ⟨v, m', b, r, bs, rs, ws, hl, g⟩ := launch_went hapart L m
  have hnone : 0 ∈ L.grid → (filled L.grid).dimension? = none :=
    fun h0 => dimension?_filled_eq_none L.dimensions h0 hs
  refine ⟨v, m', hl, fun q hq ho => ?_, fun h0 => ⟨fun q hq ho => ?_, fun hb hall => ?_⟩⟩
  · obtain ⟨hd, x, hx⟩ := g.enqueue_eq hq ho
    have h0 : 0 ∉ L.grid := fun h0 => by cases (hnone h0).symm.trans hd
    refine ⟨x, ?_⟩
    rw [hx, leading_eq_self_iff.2 h0, ← L.sameLength, List.take_length]
  · cases (hnone h0).symm.trans (g.enqueue_eq hq ho).1
  · exact g.result_of_none (hnone h0) (g.bind_fst ▸ hb) hall

def idleKernel : Kernel := ⟨"idle", 1, []⟩

def idleWrapper : Wrapper := ⟨.plain "idle", "idle", 1, []⟩

def idleMachine : Machine := ⟨⟨"idle", "", .prepared⟩, .start fun _ _ => none⟩

def idleLaunch (grid group : List Nat) (hd : grid.length ∈ [1, 2, 3])
    (hl : group.length = grid.length) : Launch fourBytes idleWrapper.slots :=
  ⟨false, ⟨1, 0⟩, [], [], grid, group, [], .nil, hd, hl⟩

theorem ofKernel_idle : Wrapper.ofKernel idleKernel = .ok idleWrapper := rfl

theorem launch_dimensions_idle :
    ∃ v m', idleWrapper.launch fourBytes (idleLaunch [0, 8] [0, 0] (by decide) rfl) idleMachine =
        some (v, m') ∧ v = .error (.noGrid ⟨0, 8, 0⟩) := by
  obtain ⟨v, m', hl, -, h0⟩ := launch_dimensions ofKernel_idle List.nodup_nil
    (idleLaunch [0, 8] [0, 0] (by decide) rfl) (not_shortened_zero [8]) idleMachine
  refine ⟨v, m', hl, (h0 List.mem_cons_self).2 rfl fun r hr why e => ?_⟩
  have hanswers : (idleWrapper.launch fourBytes (idleLaunch [0, 8] [0, 0] (by decide) rfl)
      idleMachine).map (fun o => (since idleMachine.context.native o.2.context.native).map
        Record.answer) = some [.issued 1, .issued 2] := by
    decide
  rw [hl] at hanswers
  have ha : (since idleMachine.context.native m'.context.native).map Record.answer =
      [.issued 1, .issued 2] := Option.some.inj hanswers
  have hm := List.mem_map_of_mem (f := Record.answer) hr
  rw [ha, e] at hm
  simp at hm

/-- A grid of two dimensions without rows is not refused: the kernel is enqueued over its columns. -/
theorem launch_columns :
    ∃ v m', idleWrapper.launch fourBytes (idleLaunch [64, 0] [8, 4] (by decide) rfl) idleMachine =
        some (v, m') ∧ ∃ r ∈ m'.context.native.records, r.call = .enqueue 1 2 [64] (some [8]) [] := by
  refine ⟨_, _, rfl, ?_⟩
  decide

end Turns

end KernelWrap
