import KernelWrap.Proofs.Ledger

/-! Who releases the native objects behind a wrapper. The records that an object leaves while it
lives have one shape: it is prepared, attempts to build it fail any number of times, and at most one
succeeds, after which nothing is recorded until it is dropped. A failed attempt that made a program
releases it at once; the program and the kernel of the one that succeeded are released at the drop,
the kernel first. -/

namespace KernelWrap.Compute

inductive Use where
  | build (device : Device)
  | bind (queue : Queue)
  deriving Repr, DecidableEq

def Use.device : Use → Device
  | build d => d
  | bind q => q.device

namespace Context

def use (c : Context) (k : KernelObject) : Use → Except KernelError Handle × KernelObject × Context
  | .build d =>
    match k.build d c.native with
    | (r, k, n) => (r, k, { c with native := n })
  | .bind q => c.bind k q

def uses (c : Context) (k : KernelObject) : List Use → KernelObject × Context
  | [] => (k, c)
  | u :: us => (c.use k u).2.2.uses (c.use k u).2.1 us

def life (c : Context) (read : Path → Option String) (source : KernelSource) (name : String)
    (us : List Use) : Context :=
  match KernelObject.prepare read source name c.native with
  | (.error _, n) => { c with native := n }
  | (.ok k, n) =>
    match ({ c with native := n } : Context).uses k us with
    | (k, c) => { c with native := k.drop c.native }

end Context

/-- The records of an object that is prepared and was tried to be built any number of times. Each
attempt asks for a program of the source for a device, and then for the kernel in that program. -/
inductive Failures (source name : String) : List Record → Prop
  | prepare : Failures source name [⟨.prepare source name, .done⟩]
  | program {rs : List Record} {d : Device} {why : Refusal} : Failures source name rs →
      Failures source name (rs ++ [⟨.buildProgram d source, .refused why⟩])
  | kernel {rs : List Record} {d : Device} {p : Handle} {why : Refusal} {a : Answer} :
      Failures source name rs →
      Failures source name (rs ++ [⟨.buildProgram d source, .issued p⟩,
        ⟨.createKernel p name, .refused why⟩, ⟨.releaseProgram p, a⟩])

def KernelObject.Past (k : KernelObject) (rs : List Record) : Prop :=
  match k.stage with
  | .prepared => Failures k.source k.name rs
  | .built d p h => ∃ fs, Failures k.source k.name fs ∧
      rs = fs ++ [⟨.buildProgram d k.source, .issued p⟩, ⟨.createKernel p k.name, .issued h⟩]

section Steps

namespace KernelObject

theorem build_cases (k : KernelObject) (d : Device) (n : Native) :
    (∃ b p h, k.stage = .built b p h ∧ k.build d n =
      (if b = d then .ok h else .error (.deviceMismatch k.name b d), k, n)) ∨
    (k.stage = .prepared ∧
      ((∃ why n', k.build d n = (.error (.build k.name why.log), k, n') ∧
          Gains n n' [⟨.buildProgram d k.source, .refused why⟩]) ∨
        (∃ p why a n', k.build d n = (.error (.native .createKernel why.status), k, n') ∧
          Gains n n' [⟨.buildProgram d k.source, .issued p⟩, ⟨.createKernel p k.name, .refused why⟩,
            ⟨.releaseProgram p, a⟩]) ∨
        (∃ p h n', k.build d n = (.ok h, { k with stage := .built d p h }, n') ∧
          Gains n n' [⟨.buildProgram d k.source, .issued p⟩,
            ⟨.createKernel p k.name, .issued h⟩]))) := by
  cases hs : k.stage with
  | built b p h =>
    refine .inl ⟨b, p, h, rfl, ?_⟩
    rw [build, hs]
  | prepared =>
    refine .inr ⟨rfl, ?_⟩
    rcases n.issue_cases (.buildProgram d k.source) with ⟨p, n₁, h₁, g₁⟩ | ⟨why, n₁, h₁, g₁⟩
    · rcases n₁.issue_cases (.createKernel p k.name) with ⟨h, n₂, h₂, g₂⟩ | ⟨why, n₂, h₂, g₂⟩
      · refine .inr (.inr ⟨p, h, n₂, ?_, g₁.trans g₂⟩)
        simp only [build, hs, h₁, h₂]
      · obtain ⟨a, g₃⟩ := n₂.attempt_gains (.releaseProgram p)
        refine .inr (.inl ⟨p, why, a, _, ?_, (g₁.trans g₂).trans g₃⟩)
        simp only [build, hs, h₁, h₂]
    · refine .inl ⟨why, n₁, ?_, g₁⟩
      simp only [build, hs, h₁]

theorem drop_gains (k : KernelObject) (n : Native) :
    (k.stage = .prepared ∧ k.drop n = n) ∨
      (∃ d p h a b, k.stage = .built d p h ∧
        Gains n (k.drop n) [⟨.releaseKernel h, a⟩, ⟨.releaseProgram p, b⟩]) := by
  rw [drop]
  cases hs : k.stage with
  | prepared => exact .inl ⟨rfl, rfl⟩
  | built d p h =>
    obtain ⟨a, ga⟩ := n.attempt_gains (.releaseKernel h)
    obtain ⟨b, gb⟩ := (n.attempt (.releaseKernel h)).attempt_gains (.releaseProgram p)
    exact .inr ⟨d, p, h, a, b, rfl, ga.trans gb⟩

theorem prepare_cases (read : Path → Option String) (source : KernelSource) (name : String)
    (n : Native) :
    (∃ e n' rs, prepare read source name n = (.error e, n') ∧ Gains n n' rs ∧
      ∀ r ∈ rs, ∃ text, r.call = .prepare text name) ∨
    (∃ text n', source.load read = .ok text ∧
      prepare read source name n = (.ok ⟨name, text, .prepared⟩, n') ∧
      Gains n n' [⟨.prepare text name, .done⟩]) := by
  cases hl : source.load read with
  | error e =>
    refine .inl ⟨e, n, [], ?_, .refl n, fun _ hr => absurd hr List.not_mem_nil⟩
    rw [prepare, hl]
  | ok text =>
    rcases n.perform_cases (.prepare text name) with ⟨n', h, hg⟩ | ⟨why, n', h, hg⟩
    · refine .inr ⟨text, n', rfl, ?_, hg⟩
      simp only [prepare, hl, h]
    · refine .inl ⟨.native .prepare why.status, n', _, ?_, hg, fun r hr => ⟨text, ?_⟩⟩
      · simp only [prepare, hl, h]
      · rw [List.mem_singleton.1 hr]

end KernelObject

theorem use_eq (c : Context) (k : KernelObject) (u : Use) :
    c.use k u = ((k.build u.device c.native).1, (k.build u.device c.native).2.1,
      { c with native := (k.build u.device c.native).2.2 }) := by
  cases u <;> rfl

theorem past_use {c : Context} {k : KernelObject} {rs : List Record} (h : k.Past rs) (u : Use) :
    ∃ ss, Gains c.native (c.use k u).2.2.native ss ∧ (c.use k u).2.1.Past (rs ++ ss) ∧
      (c.use k u).2.1.source = k.source ∧ (c.use k u).2.1.name = k.name := by
  rw [use_eq]
  -- Nothing happens to a built object, and a prepared one has only failures behind it.
  rcases k.build_cases u.device c.native with ⟨b, p, x, hs, e⟩ | ⟨hs, h'⟩
  · rw [e]
    refine ⟨[], .refl _, ?_, rfl, rfl⟩
    rwa [List.append_nil]
  · have hf : Failures k.source k.name rs := by
      rwa [KernelObject.Past, hs] at h
    rcases h' with ⟨why, n', e, g⟩ | ⟨p, why, a, n', e, g⟩ | ⟨p, x, n', e, g⟩
    · rw [e]
      refine ⟨_, g, ?_, rfl, rfl⟩
      rw [KernelObject.Past, hs]
      exact hf.program
    · rw [e]
      refine ⟨_, g, ?_, rfl, rfl⟩
      rw [KernelObject.Past, hs]
      exact hf.kernel
    · rw [e]
      exact ⟨_, g, ⟨rs, hf, rfl⟩, rfl, rfl⟩

theorem past_uses {c : Context} {k : KernelObject} {rs : List Record} (h : k.Past rs)
    (us : List Use) :
    ∃ ss, Gains c.native (c.uses k us).2.native ss ∧ (c.uses k us).1.Past (rs ++ ss) ∧
      (c.uses k us).1.source = k.source ∧ (c.uses k us).1.name = k.name := by
  induction us generalizing c k rs with
  | nil => exact ⟨[], .refl _, by rwa [List.append_nil], rfl, rfl⟩
  | cons u us ih =>
    obtain ⟨ss, hg, hp, hs, hn⟩ := past_use (c := c) h u
    obtain ⟨ss', hg', hp', hs', hn'⟩ := ih (c := (c.use k u).2.2) hp
    rw [List.append_assoc] at hp'
    exact ⟨ss ++ ss', hg.trans hg', hp', hs'.trans hs, hn'.trans hn⟩

end Steps

section Accounts

/-- At no time more is released than was made, and it is released in the order it was made in. -/
def Covered (rs : List Record) : Prop := ∀ a, a <+: rs → ∀ o, released o a <+: made o a

theorem covered_append {rs ss : List Record} (h : ∀ o, released o rs = made o rs)
    (hr : Covered rs) (hs : Covered ss) : Covered (rs ++ ss) := by
  rintro a ⟨b, hb⟩ o
  -- The prefix ends in the first part, or it has all of it, and then the first part is balanced.
  rcases List.append_eq_append_iff.1 hb with ⟨x, rfl, -⟩ | ⟨x, rfl, rfl⟩
  · exact hr a (List.prefix_append a x) o
  · rw [released_append, made_append, h o, List.prefix_append_right_inj]
    exact hs x (List.prefix_append x b) o

theorem covered_idle {r : Record} (h : ∀ o, released o [r] = []) : Covered [r] := by
  intro a ha o
  obtain rfl | ⟨b, rfl, hb⟩ := List.prefix_cons_iff.1 ha
  · exact List.prefix_rfl
  · obtain rfl := List.prefix_nil.1 hb
    rw [h o]
    exact List.nil_prefix

theorem covered_attempt (source name : String) (d : Device) (p : Handle) (why : Refusal)
    (a : Answer) : Covered [⟨.buildProgram d source, .issued p⟩, ⟨.createKernel p name, .refused why⟩,
      ⟨.releaseProgram p, a⟩] := by
  intro rs hr o
  obtain rfl | ⟨rs, rfl, h₁⟩ := List.prefix_cons_iff.1 hr
  · exact List.prefix_rfl
  obtain rfl | ⟨rs, rfl, h₂⟩ := List.prefix_cons_iff.1 h₁
  · cases o <;> exact List.nil_prefix
  obtain rfl | ⟨rs, rfl, h₃⟩ := List.prefix_cons_iff.1 h₂
  · cases o <;> exact List.nil_prefix
  obtain rfl := List.prefix_nil.1 h₃
  cases o <;> exact List.prefix_rfl

theorem covered_success (source name : String) (d : Device) (p h : Handle) (a b : Answer) :
    Covered [⟨.buildProgram d source, .issued p⟩, ⟨.createKernel p name, .issued h⟩,
      ⟨.releaseKernel h, a⟩, ⟨.releaseProgram p, b⟩] := by
  intro rs hr o
  obtain rfl | ⟨rs, rfl, h₁⟩ := List.prefix_cons_iff.1 hr
  · exact List.prefix_rfl
  obtain rfl | ⟨rs, rfl, h₂⟩ := List.prefix_cons_iff.1 h₁
  · cases o <;> exact List.nil_prefix
  obtain rfl | ⟨rs, rfl, h₃⟩ := List.prefix_cons_iff.1 h₂
  · cases o <;> exact List.nil_prefix
  obtain rfl | ⟨rs, rfl, h₄⟩ := List.prefix_cons_iff.1 h₃
  · cases o <;> first | exact List.prefix_rfl | exact List.nil_prefix
  obtain rfl := List.prefix_nil.1 h₄
  cases o <;> exact List.prefix_rfl

namespace Failures

variable {source name : String} {rs : List Record}

theorem balanced (h : Failures source name rs) (o : Kind) : released o rs = made o rs := by
  induction h with
  | prepare => cases o <;> rfl
  | program _ ih =>
    rw [released_append, made_append, ih]
    cases o <;> rfl
  | kernel _ ih =>
    rw [released_append, made_append, ih]
    cases o <;> rfl

theorem no_kernel (h : Failures source name rs) : made .kernel rs = [] := by
  induction h with
  | prepare => rfl
  | program _ ih => rw [made_append, ih]; rfl
  | kernel _ ih => rw [made_append, ih]; rfl

theorem covered (h : Failures source name rs) : Covered rs := by
  induction h with
  | prepare => exact covered_idle fun o => by cases o <;> rfl
  | program h ih => exact covered_append h.balanced ih (covered_idle fun o => by cases o <;> rfl)
  | kernel h ih => exact covered_append h.balanced ih fun a => covered_attempt _ _ _ _ _ _ a

end Failures

/-- The accounts of an object that was dropped. Each program that was made is released once, and so
is the one kernel that may have been made, and nothing is released before it was made. -/
structure Settled (t : List Record) : Prop where
  programs : released .program t = made .program t
  kernels : released .kernel t = made .kernel t
  distinct : (made .program t).Nodup
  oneKernel : (made .kernel t).length ≤ 1
  covered : Covered t

theorem settled_of_prepare {rs : List Record} {name : String}
    (h : ∀ r ∈ rs, ∃ text, r.call = .prepare text name) : Settled rs := by
  have hm : ∀ a, a ⊆ rs → ∀ o, made o a = [] := by
    intro a ha o
    refine List.filterMap_eq_nil_iff.2 fun r hr => ?_
    obtain ⟨text, e⟩ := h r (ha hr)
    rw [e]
    rfl
  have hr : ∀ a, a ⊆ rs → ∀ o, released o a = [] := by
    intro a ha o
    refine List.filterMap_eq_nil_iff.2 fun r hr => ?_
    obtain ⟨text, e⟩ := h r (ha hr)
    rw [e]
    cases o <;> rfl
  have hs := List.Subset.refl rs
  constructor
  · rw [hm rs hs, hr rs hs]
  · rw [hm rs hs, hr rs hs]
  · rw [hm rs hs]
    exact List.nodup_nil
  · rw [hm rs hs]
    exact Nat.zero_le 1
  · intro a ha o
    rw [hr a ha.subset]
    exact List.nil_prefix

/-- The accounts of an object in use, since the runtime was `n₀`. Failed attempts lie behind it,
each settled at once, and its program and its kernel are held. -/
structure Held (n₀ : Native) (k : KernelObject) (n : Native) : Prop where
  past : k.Past (since n₀ n)
  kernels : released .kernel (since n₀ n) = []
  program : ∀ d p h, k.stage = .built d p h →
    p ∈ made .program (since n₀ n) ∧ p ∉ released .program (since n₀ n)
  kernel : ∀ d p h, k.stage = .built d p h → made .kernel (since n₀ n) = [h]
  /-- A drop releases what is held, the kernel first. -/
  drop : (k.stage = .prepared ∧ since n (k.drop n) = []) ∨ ∃ d p h a b, k.stage = .built d p h ∧
    since n (k.drop n) = [⟨.releaseKernel h, a⟩, ⟨.releaseProgram p, b⟩]

structure Answers (k : KernelObject) (c : Context) (u : Use) : Prop where
  /-- A built object stays as it is and asks the runtime for nothing. -/
  built : ∀ d p h, k.stage = .built d p h → c.use k u =
    (if d = u.device then .ok h else .error (.deviceMismatch k.name d u.device), k, c)
  failed : ∀ e, (c.use k u).1 = .error e → (c.use k u).2.1 = k
  requested : ∀ d s a, ⟨.buildProgram d s, a⟩ ∈ since c.native (c.use k u).2.2.native →
    d = u.device ∧ s = k.source
  created : ∀ p s a, ⟨.createKernel p s, a⟩ ∈ since c.native (c.use k u).2.2.native →
    ⟨.buildProgram u.device k.source, .issued p⟩ ∈ since c.native (c.use k u).2.2.native ∧ s = k.name

end Accounts

section Lives

variable {n₀ n : Native} {k : KernelObject} {rs : List Record}

theorem past_cases (hp : k.Past rs) : (k.stage = .prepared ∧ Failures k.source k.name rs) ∨
    ∃ d p h fs, k.stage = .built d p h ∧ Failures k.source k.name fs ∧
      rs = fs ++ [⟨.buildProgram d k.source, .issued p⟩, ⟨.createKernel p k.name, .issued h⟩] := by
  unfold KernelObject.Past at hp
  split at hp
  · next hs => exact .inl ⟨hs, hp⟩
  · next d p h hs =>
    obtain ⟨fs, hf, e⟩ := hp
    exact .inr ⟨d, p, h, fs, hs, hf, e⟩

theorem held_of_past (hf : n₀.Fresh) (hg : Gains n₀ n rs) (hp : k.Past rs) : Held n₀ k n := by
  have hs := hg.since_eq
  have hd : (k.stage = .prepared ∧ since n (k.drop n) = []) ∨ ∃ d p h a b, k.stage = .built d p h ∧
      since n (k.drop n) = [⟨.releaseKernel h, a⟩, ⟨.releaseProgram p, b⟩] := by
    rcases k.drop_gains n with ⟨hk, e⟩ | ⟨d, p, h, a, b, hk, g⟩
    · exact .inl ⟨hk, e.symm ▸ (Gains.refl n).since_eq⟩
    · exact .inr ⟨d, p, h, a, b, hk, g.since_eq⟩
  rcases past_cases hp with ⟨hk, hfs⟩ | ⟨d, p, h, fs, hk, hfs, rfl⟩
  · have hn : ∀ d p h, k.stage ≠ .built d p h := by
      intro d p h e
      rw [hk] at e
      cases e
    refine ⟨hs.symm ▸ hp, ?_, fun d p h e => absurd e (hn d p h), fun d p h e => absurd e (hn d p h),
      hd⟩
    rw [hs, hfs.balanced, hfs.no_kernel]
  · -- No failed attempt has released the program, because it was made after all of them.
    have hnodup := (hg.fresh hf .program).1
    rw [made_append, List.nodup_append] at hnodup
    have hp' : p ∉ made .program fs := fun hm => hnodup.2.2 p hm p List.mem_cons_self rfl
    constructor
    · rwa [hs]
    · rw [hs, released_append, hfs.balanced, hfs.no_kernel]
      rfl
    · intro d' p' h' e
      cases hk.symm.trans e
      rw [hs, made_append, released_append, hfs.balanced]
      refine ⟨List.mem_append_right _ List.mem_cons_self, fun hm => ?_⟩
      rcases List.mem_append.1 hm with hm | hm
      · exact hp' hm
      · cases hm
    · intro d' p' h' e
      cases hk.symm.trans e
      rw [hs, made_append, hfs.no_kernel]
      rfl
    · exact hd

theorem settled_drop (hf : n₀.Fresh) (hg : Gains n₀ n rs) (hp : k.Past rs) :
    Settled (since n₀ (k.drop n)) := by
  rcases past_cases hp with ⟨hk, hfs⟩ | ⟨d, p, h, fs, hk, hfs, rfl⟩
  · rcases k.drop_gains n with ⟨-, e⟩ | ⟨d, p, h, a, b, hk', -⟩
    · rw [e, hg.since_eq]
      exact ⟨hfs.balanced _, hfs.balanced _, (hg.fresh hf .program).1,
        hfs.no_kernel ▸ Nat.zero_le 1, hfs.covered⟩
    · cases hk.symm.trans hk'
  · rcases k.drop_gains n with ⟨hk', -⟩ | ⟨d', p', h', a, b, hk', g⟩
    · cases hk.symm.trans hk'
    · cases hk.symm.trans hk'
      have hn := ((hg.trans g).fresh hf .program).1
      rw [(hg.trans g).since_eq]
      rw [List.append_assoc] at hn ⊢
      constructor
      · rw [released_append, made_append, hfs.balanced]
        rfl
      · rw [released_append, made_append, hfs.balanced]
        rfl
      · exact hn
      · rw [made_append, hfs.no_kernel]
        exact Nat.le_refl 1
      · exact covered_append hfs.balanced hfs.covered fun a => covered_success _ _ _ _ _ _ _ a

theorem answers_of_attempt {k k' : KernelObject} {c : Context} {u : Use} {n' : Native}
    {r : Except KernelError Handle} {rs : List Record} (hs : k.stage = .prepared)
    (e : k.build u.device c.native = (r, k', n')) (g : Gains c.native n' rs)
    (hr : ∀ e, r = .error e → k' = k)
    (hb : ∀ d s a, ⟨.buildProgram d s, a⟩ ∈ rs → d = u.device ∧ s = k.source)
    (hc : ∀ p s a, ⟨.createKernel p s, a⟩ ∈ rs →
      ⟨.buildProgram u.device k.source, .issued p⟩ ∈ rs ∧ s = k.name) : Answers k c u := by
  have hu : c.use k u = (r, k', { c with native := n' }) := by rw [use_eq, e]
  have hsince : since c.native (c.use k u).2.2.native = rs := by
    rw [hu]
    exact g.since_eq
  constructor
  · intro d p h e'
    rw [hs] at e'
    cases e'
  · intro e'
    rw [hu]
    exact hr e'
  · rw [hsince]
    exact hb
  · rw [hsince]
    exact hc

theorem answers (k : KernelObject) (c : Context) (u : Use) : Answers k c u := by
  rcases k.build_cases u.device c.native with ⟨b, p, x, hs, e⟩ | ⟨hs, h'⟩
  · have hu : c.use k u = _ := (use_eq c k u).trans (by rw [e])
    have hsince : since c.native (c.use k u).2.2.native = [] := by
      rw [hu]
      exact (Gains.refl _).since_eq
    constructor
    · intro d p' h e'
      cases hs.symm.trans e'
      exact hu
    · intro e' _
      rw [hu]
    · intro d s a hm
      rw [hsince] at hm
      cases hm
    · intro d s a hm
      rw [hsince] at hm
      cases hm
  · rcases h' with ⟨why, n', e, g⟩ | ⟨p, why, a, n', e, g⟩ | ⟨p, x, n', e, g⟩
    · exact answers_of_attempt hs e g (fun _ _ => rfl) (by simp +contextual)
        (by simp +contextual)
    · exact answers_of_attempt hs e g (fun _ _ => rfl) (by simp +contextual)
        (by simp +contextual)
    · exact answers_of_attempt hs e g (fun _ h => by cases h) (by simp +contextual)
        (by simp +contextual)

/-- Every program and kernel that an object makes is released exactly once, whatever the runtime
refuses, and the object holds what it built until it is dropped. -/
theorem ownership (c : Context) (hf : c.native.Fresh) (read : Path → Option String)
    (source : KernelSource) (name : String) (us : List Use) :
    Settled (since c.native (c.life read source name us).native) ∧
      ∀ k n, KernelObject.prepare read source name c.native = (.ok k, n) →
        let s := ({ c with native := n } : Context).uses k us
        source.load read = .ok s.1.source ∧ s.1.name = name ∧ Held c.native s.1 s.2.native ∧
          ∀ u, Answers s.1 s.2 u := by
  rcases KernelObject.prepare_cases read source name c.native with
    ⟨e, n, rs, hp, hg, he⟩ | ⟨text, n, hl, hp, hg⟩
  · refine ⟨?_, fun k n' hk => ?_⟩
    · rw [Context.life, hp]
      exact hg.since_eq.symm ▸ settled_of_prepare he
    · cases hp.symm.trans hk
  · have hpast : (⟨name, text, .prepared⟩ : KernelObject).Past [⟨.prepare text name, .done⟩] :=
      Failures.prepare
    obtain ⟨ss, hg', hp', hs, hn⟩ := past_uses (c := { c with native := n }) hpast us
    have hall := hg.trans hg'
    refine ⟨?_, fun k n' hk => ?_⟩
    · rw [Context.life, hp]
      exact settled_drop hf hall hp'
    · cases hp.symm.trans hk
      exact ⟨hl.trans (congrArg Except.ok hs.symm), hn, held_of_past hf hall hp', answers _ _⟩

def reluctant (rs : List Record) (c : Call) : Option Refusal :=
  if c.makes = some .kernel ∧ rs.all (·.call.makes != some .kernel) then some ⟨-6, ""⟩ else none

def reluctantLife : Context :=
  (Context.start reluctant).life (fun _ => none) (.embedded "kernel void k() \x7b\x7d") "k"
    [.build 0, .bind ⟨7, 0⟩, .build 1]

theorem ownership_reluctant : Settled (since (Context.start reluctant).native reluctantLife.native) ∧
    made .program (since (Context.start reluctant).native reluctantLife.native) = [1, 2] ∧
    made .kernel (since (Context.start reluctant).native reluctantLife.native) = [3] :=
  ⟨(ownership (Context.start reluctant) (fresh_start reluctant) (fun _ => none)
    (.embedded "kernel void k() \x7b\x7d") "k" [.build 0, .bind ⟨7, 0⟩, .build 1]).1, by decide,
    by decide⟩

end Lives

end KernelWrap.Compute
