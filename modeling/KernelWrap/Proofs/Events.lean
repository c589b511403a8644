import KernelWrap.Proofs.Dimensions
import KernelWrap.Proofs.Sharing

/-! Who releases the events of launches. A program launches wrappers of one context, clones, drops
and waits for the events it was given, in any order and whatever the runtime refuses. At all times
every event that an enqueue has issued is live or was released once, and only live events are waited
for. A launch that waits releases its event itself, after the wait. -/

namespace KernelWrap
open Host Compute

def returned : Except KernelError Value → List Event
  | .ok (.event e) => [e]
  | _ => []

/-- The records of a launch that waits. It makes no event, or its enqueue is followed by a wait for
the event of the enqueue and the release of this event; a wait that fails is the result. -/
def Concluded (rs : List Record) (v : Except KernelError Value) : Prop :=
  ∃ front rest, rs = front ++ rest ∧ made .event front = [] ∧ released .event front = [] ∧
    (rest = [] ∨ ∃ call x a b,
      rest = [⟨call, .issued x⟩, ⟨.wait [x], a⟩, ⟨.releaseEvent x, b⟩] ∧
        call.makes = some .event ∧ ∀ why, a = .refused why → v = .error (.native .wait why.status))

theorem launch_keeps {w : Wrapper} {h : Target} (hn : NamesApart w.slots) (L : Launch h w.slots)
    {m : Machine} {live : List Event} (hk : m.context.Keeps live)
    (hf : m.context.native.IssuesFresh) (hw : L.waitList ⊆ live) :
    ∃ v m', w.launch h L m = some (v, m') ∧ m'.context.Keeps (returned v ++ live) ∧
      m'.context.native.choose = m.context.native.choose ∧
      (L.blocking = true → Concluded (since m.context.native m'.context.native) v) := by
  rw [launch_eq hn L m]
  obtain ⟨e, k, c, front, hd, hq⟩ | ⟨x, k, c, front, call, hd, hi⟩ :=
    m.context.dispatch_shares m.object L.queue ((w.slots.map Slot.index).zip L.arguments)
      (filled L.grid) (filled L.group) L.waitList
  · obtain ⟨hmade, hreleased⟩ := made_of_quiet hq.quiet
    rw [hd]
    refine ⟨.error e, ⟨k, c⟩, rfl, hk.quiets hq.holders hq.gains fun p hp => (hq.quiet p hp).mono hw,
      hq.gains.choose, fun _ => ?_⟩
    exact ⟨front, [], by rw [hq.gains.since_eq, List.append_nil], hmade, hreleased, .inl rfl⟩
  obtain ⟨hmade, hreleased⟩ := made_of_quiet hi.quiet
  have hissued := hk.issue hf hi hw
  rw [hd]
  dsimp only
  cases L.blocking with
  | false => exact ⟨_, ⟨k, c⟩, rfl, hissued, hi.gains.choose, fun e => by cases e⟩
  | true =>
    have hone : c.holders[m.context.holders.length]? = some 1 := by
      rw [hi.holders]
      exact List.getElem?_concat_length
    obtain ⟨r, c', a, b, hfin, hkeeps, g, hres⟩ := hissued.finish hone
    rw [hfin]
    refine ⟨r.map fun _ => .unit, ⟨k, c'⟩, rfl, by cases r <;> exact hkeeps,
      g.choose.trans hi.gains.choose, fun _ => ?_⟩
    refine ⟨front, _, ?_, hmade, hreleased, .inr ⟨call, x, a, b, rfl, hi.makes, fun why hy => ?_⟩⟩
    · rw [(hi.gains.trans g).since_eq, List.append_assoc]
      rfl
    · rw [hres why hy]
      rfl

structure Placed where
  reader : Host.Reader
  kernel : Kernel
  wrapper : Wrapper
  object : KernelObject
  ofKernel : Wrapper.ofKernel kernel reader = .ok wrapper
  distinct : (wrapper.slots.map Slot.name).Nodup

structure Desk where
  context : Context
  wrappers : List Placed
  live : List Event

/-- The desks that a program gets to, from one without wrappers and events. -/
inductive Desk.Reached (h : Target) : Desk → Prop
  | start {n : Native} : n.records = [] → n.IssuesFresh → Reached h ⟨⟨n, []⟩, [], []⟩
  /-- A wrapper is made. -/
  | make {d : Desk} {p : Placed} {read : Path → Option String} {source : KernelSource} {n : Native} :
      Reached h d →
      KernelObject.prepare read source p.wrapper.kernelName d.context.native = (.ok p.object, n) →
      Reached h ⟨{ d.context with native := n }, p :: d.wrappers, d.live⟩
  /-- A wrapper is launched, with or without waiting, and with any live events as wait list. -/
  | launch {d : Desk} {i : Nat} {p : Placed} {L : Launch h p.wrapper.slots}
      {v : Except KernelError Value} {m : Machine} : Reached h d → d.wrappers[i]? = some p →
      L.waitList ⊆ d.live → p.wrapper.launch h L ⟨p.object, d.context⟩ = some (v, m) →
      Reached h ⟨m.context, d.wrappers.set i { p with object := m.object }, returned v ++ d.live⟩
  | clone {d : Desk} {e : Event} : Reached h d → e ∈ d.live →
      Reached h ⟨d.context.clone e, d.wrappers, e :: d.live⟩
  | drop {d : Desk} {e : Event} : Reached h d → e ∈ d.live →
      Reached h ⟨d.context.drop e, d.wrappers, d.live.erase e⟩
  | wait {d : Desk} {e : Event} : Reached h d → e ∈ d.live →
      Reached h ⟨(d.context.wait e).2, d.wrappers, d.live⟩
  | waitAll {d : Desk} {es : List Event} : Reached h d → es ⊆ d.live →
      Reached h ⟨(d.context.waitAll es).2, d.wrappers, d.live⟩

namespace Placed

variable {h : Target}

theorem namesApart (p : Placed) : NamesApart p.wrapper.slots :=
  ⟨p.distinct, fun _ ht => name_notMem_ownNames (slotsFor_ofKernel p.ofKernel) ht⟩

end Placed

namespace Desk

variable {h : Target} {d : Desk}

structure Sound (d : Desk) : Prop where
  keeps : d.context.Keeps d.live
  fresh : d.context.native.IssuesFresh

theorem issuesFresh_congr {n n' : Native} (h : n.IssuesFresh) (hc : n'.choose = n.choose) :
    n'.IssuesFresh := by
  rw [Native.IssuesFresh, hc]
  exact h

theorem Reached.sound (hd : d.Reached h) : d.Sound := by
  induction hd with
  | @start n hr hf =>
    refine ⟨?_, hf⟩
    rw [Context.Keeps, hr]
    exact .start
  | @make d p read source n _ hp ih =>
    rcases KernelObject.prepare_cases read source p.wrapper.kernelName d.context.native with
      ⟨e, n', rs, he, -⟩ | ⟨text, n', -, he, g⟩
    · rw [he] at hp
      cases hp
    · obtain ⟨-, rfl⟩ := Prod.mk.inj (he.symm.trans hp)
      have hq : Record.Quiet d.live ⟨.prepare text p.wrapper.kernelName, .done⟩ :=
        quiet_of_operation (show Operation.prepare ∉ _ by decide) d.live
      exact ⟨ih.keeps.quiets rfl g (List.forall_mem_singleton.2 hq), issuesFresh_congr ih.fresh g.choose⟩
  | @launch d i p L v m _ _ hw hl ih =>
    obtain ⟨v', m', hl', hk, hc, -⟩ := launch_keeps p.namesApart L (m := ⟨p.object, d.context⟩)
      ih.keeps ih.fresh hw
    cases hl.symm.trans hl'
    exact ⟨hk, issuesFresh_congr ih.fresh hc⟩
  | clone _ he ih => exact ⟨ih.keeps.clone he, ih.fresh⟩
  | drop _ he ih =>
    obtain ⟨hk, a, g⟩ := ih.keeps.drop he
    exact ⟨hk, issuesFresh_congr ih.fresh g.choose⟩
  | wait _ he ih =>
    obtain ⟨hk, hc⟩ := ih.keeps.awaits (List.cons_subset.2 ⟨he, List.nil_subset _⟩)
    exact ⟨hk, issuesFresh_congr ih.fresh hc⟩
  | @waitAll d es _ hes ih =>
    rw [Context.waitAll]
    split
    · exact ih
    · obtain ⟨hk, hc⟩ := ih.keeps.awaits hes
      exact ⟨hk, issuesFresh_congr ih.fresh hc⟩

/-- At every desk each event that an enqueue has issued was released once, unless a clone of it is
live, and nothing else was released; no event was waited for before it was made or after it was
released. The drop of the last clone of an event releases it, and the drop of another one asks the
runtime for nothing. A launch ends, and one that waits releases its own event after the wait. -/
theorem Reached.events (hd : d.Reached h) :
    (∀ x ∈ made .event d.context.native.records,
      (released .event d.context.native.records).count x =
        if x ∈ d.live.map Event.handle then 0 else 1) ∧
    (∀ x ∈ released .event d.context.native.records, x ∈ made .event d.context.native.records) ∧
    Awaited d.context.native.records ∧
    (∀ e ∈ d.live, ∃ a, since d.context.native (d.context.drop e).native =
      if d.live.count e = 1 then [⟨.releaseEvent e.handle, a⟩] else []) ∧
    ∀ p ∈ d.wrappers, ∀ L : Launch h p.wrapper.slots, L.waitList ⊆ d.live →
      ∃ v m, p.wrapper.launch h L ⟨p.object, d.context⟩ = some (v, m) ∧
        (L.blocking = true → Concluded (since d.context.native m.context.native) v) := by
  obtain ⟨hk, hf⟩ := hd.sound
  refine ⟨hk.released, hk.only, hk.awaited, fun e he => ?_, fun p _ L hw => ?_⟩
  · obtain ⟨-, a, g⟩ := hk.drop he
    exact ⟨a, g.since_eq⟩
  · obtain ⟨v, m, hl, -, -, hc⟩ := launch_keeps p.namesApart L (m := ⟨p.object, d.context⟩) hk hf hw
    exact ⟨v, m, hl, hc⟩

def stubborn : Native := .start fun _ c =>
  if c.operation ∈ [.wait, .releaseEvent] then some ⟨-5, ""⟩ else none

theorem issuesFresh_stubborn : stubborn.IssuesFresh := by
  intro rs c hc hm
  obtain ⟨r, hr, hmakes, hi⟩ := mem_made.1 hm
  exact fresh_start _ rs c .event hc r hr hmakes hi

def idlePlaced (k : KernelObject) : Placed :=
  ⟨Host.pathReader, idleKernel, idleWrapper, k, ofKernel_idle, List.nodup_nil⟩

def idleRun (blocking : Bool) (es : List Event) : Launch fourBytes idleWrapper.slots :=
  ⟨blocking, ⟨1, 0⟩, [], [], [4], [0], es, .nil, by decide, rfl⟩

theorem events_idle : ∃ d : Desk, d.Reached fourBytes ∧
    made .event d.context.native.records = [4, 3] ∧ d.live = [] ∧
    (∀ x ∈ [4, 3], (released .event d.context.native.records).count x = 1) ∧
    Awaited d.context.native.records := by
  have hstart : Reached fourBytes ⟨⟨stubborn, []⟩, [], []⟩ := .start rfl issuesFresh_stubborn
  have hmake := @Reached.make _ _ (idlePlaced ⟨"idle", "", .prepared⟩) (fun _ => none)
    (.embedded "") _ hstart rfl
  have hasync := @Reached.launch _ _ 0 _ (idleRun false []) _ _ hmake rfl (List.nil_subset _) rfl
  have hclone := @Reached.clone _ _ ⟨3, 0⟩ hasync List.mem_cons_self
  have hrun := @Reached.launch _ _ 0 _ (idleRun true [⟨3, 0⟩]) _ _ hclone rfl
    (List.cons_subset.2 ⟨List.mem_cons_self, List.nil_subset _⟩) rfl
  have hdrop := @Reached.drop _ _ ⟨3, 0⟩ hrun List.mem_cons_self
  have hlast := @Reached.drop _ _ ⟨3, 0⟩ hdrop List.mem_cons_self
  obtain ⟨hreleased, -, hawaited, -⟩ := hlast.events
  refine ⟨_, hlast, rfl, rfl, fun x hx => ?_, hawaited⟩
  exact hreleased x hx

end Desk

end KernelWrap
