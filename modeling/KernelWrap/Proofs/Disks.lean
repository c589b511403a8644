import KernelWrap.Disk
import KernelWrap.Proofs.Paths

/-! What operations do to a disk. Where a path leads to is said by its text and the working
directory alone; the disk only decides whether it leads anywhere. Whatever an operation does, it
puts directories where nothing was and files where no directory was, so files and directories that
it does not name stay, and all places keep being made of names. -/

namespace KernelWrap

def Place.enter (p : Place) (piece : List Char) : Place :=
  if piece = [] ∨ piece = ['.'] then p else if piece = ['.', '.'] then p.dropLast else p ++ [piece]

theorem Place.enter_named {p : Place} {piece : List Char} (hp : ∀ n ∈ p, Path.IsName n)
    (h : '/' ∉ piece) : ∀ n ∈ p.enter piece, Path.IsName n := by
  unfold enter
  split
  · exact hp
  · next hn =>
    rw [not_or] at hn
    split
    · exact fun n hm => hp n (List.dropLast_subset p hm)
    · next hu =>
      intro n hm
      rcases List.mem_append.1 hm with hm | hm
      · exact hp n hm
      · rw [List.mem_singleton.1 hm]
        exact ⟨⟨hn.1, h, hn.2⟩, hu⟩

def Path.target (here : Place) (p : Path) : Place :=
  (splitSlashes p.chars).foldl Place.enter (if p.isAbsolute then [] else here)

namespace Disk

variable {d d' d'' : Disk} {p : Path} {q : Place}

theorem enter_eq {piece : List Char} {r : Place} (h : d.enter q piece = .ok r) :
    r = q.enter piece := by
  unfold enter at h
  split at h
  · cases h
  · cases h
  · split at h
    · cases h
    · exact (Except.ok.inj h).symm

theorem follow_eq {r : Place} : ∀ {q : Place} {pieces : List (List Char)},
    d.follow q pieces = .ok r → r = pieces.foldl Place.enter q
  | q, [], h => (Except.ok.inj h).symm
  | q, piece :: pieces, h => by
    rw [follow] at h
    split at h
    · cases h
    · next hq => rw [follow_eq h, enter_eq hq]; rfl

theorem locate_eq_ok : d.locate p = .ok q ↔
    (p.chars ≠ [] ∧ '\x00' ∉ p.chars ∧ ¬longestPath < Text.byteSize p.chars) ∧
      d.follow (if p.isAbsolute then [] else d.here) (splitSlashes p.chars) = .ok q := by
  unfold locate
  by_cases he : p.chars = []
  · simp [he]
  by_cases hz : '\x00' ∈ p.chars
  · simp [he, hz]
  by_cases hl : longestPath < Text.byteSize p.chars
  · simp [he, hz, hl]
  · rw [if_neg he, if_neg hz, if_neg hl]
    exact ⟨fun h => ⟨⟨he, hz, hl⟩, h⟩, And.right⟩

theorem locate_eq (h : d.locate p = .ok q) : q = p.target d.here := follow_eq (locate_eq_ok.1 h).2

theorem chars_ne_nil_of_locate (h : d.locate p = .ok q) : p.chars ≠ [] := (locate_eq_ok.1 h).1.1

theorem find_eq_ok {e : Entry} : d.find p = .ok (q, e) ↔ d.locate p = .ok q ∧ d.lookup q = some e := by
  unfold find
  split
  · simp_all
  · next r hr =>
    split
    · next hn =>
      rw [hr]
      exact iff_of_false (by simp) fun h => by rw [Except.ok.inj h.1, h.2] at hn; cases hn
    · next e' he =>
      rw [hr, Except.ok.injEq, Except.ok.injEq, Prod.mk.injEq]
      refine and_congr_right fun hq => ?_
      rw [← hq, he, Option.some.injEq]

theorem exists_locate_of_exist (h : d.exist p = true) : ∃ q, d.locate p = .ok q := by
  unfold exist at h
  cases hf : d.find p with
  | error e => rw [hf] at h; cases h
  | ok x => exact ⟨x.1, (find_eq_ok.1 hf).1⟩

theorem isDirectory_iff : d.isDirectory p = true ↔
    ∃ q, d.locate p = .ok q ∧ d.lookup q = some .directory := by
  simp only [← find_eq_ok]
  unfold isDirectory
  split
  · next q h => exact iff_of_true rfl ⟨q, h⟩
  · next hn => exact iff_of_false Bool.false_ne_true fun ⟨q, h⟩ => hn q h

theorem fromUTF8?_eq_some {b : ByteArray} {s : String} :
    String.fromUTF8? b = some s ↔ b = s.toByteArray := by
  rw [String.fromUTF8?]
  split
  · next h =>
    rw [Option.some.injEq, ← String.toByteArray_inj]
    rfl
  · next h => exact iff_of_false nofun fun e => h (e ▸ s.isValidUTF8)

theorem readText_eq_ok {s : String} : d.readText p = .ok s ↔
    ∃ q, d.locate p = .ok q ∧ d.lookup q = some (.file s.toByteArray) := by
  simp only [← find_eq_ok]
  unfold readText readBytes
  cases d.find p with
  | error e => simp
  | ok x =>
    obtain ⟨q, e⟩ := x
    cases e with
    | directory => simp
    | file c =>
      simp only [Except.ok.injEq, Prod.mk.injEq, Entry.file.injEq, ← fromUTF8?_eq_some]
      cases String.fromUTF8? c <;> simp

theorem readBytes_of_readText {s : String} (h : d.readText p = .ok s) :
    d.readBytes p = .ok s.toByteArray := by
  obtain ⟨q, hq, hf⟩ := readText_eq_ok.1 h
  rw [readBytes, find_eq_ok.2 ⟨hq, hf⟩]

theorem locate_named (hh : ∀ n ∈ d.here, Path.IsName n) (h : d.locate p = .ok q) : ∀ n ∈ q, Path.IsName n := by
  rw [locate_eq h]
  refine List.foldlRecOn (motive := fun r => ∀ n ∈ r, Path.IsName n) _ _ ?_ fun r hr piece hp =>
    Place.enter_named hr (Text.notMem_of_mem_pieces hp)
  split
  · exact fun n hn => absurd hn List.not_mem_nil
  · exact hh

theorem lookup_put_directory (h : d.lookup q = none) :
    (d.put q .directory).lookup q = some .directory :=
  lookup_put_self d (fun e => by rw [e] at h; cases h) _

theorem trimSlashes_of_not (h : ¬endsWithSlash p = true) : (⟨trimSlashes p.chars⟩ : Path) = p := by
  obtain ⟨s⟩ := p
  by_cases hs : s = []
  · subst hs
    rfl
  have hl : s.getLast? = some (s.getLast hs) := List.getLast?_eq_some_getLast hs
  have hc : s.getLast hs ≠ '/' := fun e => h (beq_iff_eq.2 (hl.trans (congrArg some e)))
  have hr : s.reverse.dropWhile (· == '/') = s.reverse := by
    rw [← List.dropLast_concat_getLast hs, List.reverse_append]
    exact List.dropWhile_cons_of_neg (by simpa using hc)
  rw [trimSlashes, hr, List.reverse_reverse]
  split <;> simp_all

theorem mem_entries_of_lookup {c : ByteArray} (h : d.lookup q = some (.file c)) :
    (q, .file c) ∈ d.entries := by
  unfold lookup at h
  split at h
  · cases h
  · obtain ⟨before, after, e, -⟩ := List.lookup_eq_some_iff.1 h
    exact e ▸ List.mem_append_right _ List.mem_cons_self

/-- How a disk becomes another one: by new directories, and by files at places of `W`. -/
inductive Puts (W : Place → Prop) (d : Disk) : Disk → Prop
  | refl : Puts W d d
  | directory {d' : Disk} {p : Path} {q : Place} : Puts W d d' → d'.locate p = .ok q →
      d'.lookup q = none → Puts W d (d'.put q .directory)
  | file {d' : Disk} {p : Path} {q : Place} (content : ByteArray) : Puts W d d' →
      d'.locate p = .ok q → W q → d'.lookup q ≠ some .directory → Puts W d (d'.put q (.file content))

namespace Puts

variable {W V : Place → Prop}

theorem trans (h : Puts W d d') (h' : Puts W d' d'') : Puts W d d'' := by
  induction h' with
  | refl => exact h
  | directory _ hq hn ih => exact ih.directory hq hn
  | file c _ hq hw hn ih => exact ih.file c hq hw hn

theorem mono (h : Puts W d d') (hW : ∀ q, W q → V q) : Puts V d d' := by
  induction h with
  | refl => exact .refl
  | directory _ hq hn ih => exact ih.directory hq hn
  | file c _ hq hw hn ih => exact ih.file c hq (hW _ hw) hn

theorem here (h : Puts W d d') : d'.here = d.here := by
  induction h with
  | refl => rfl
  | directory _ _ _ ih => exact ih
  | file _ _ _ _ _ ih => exact ih

theorem lookup_file (h : Puts W d d') (hq : ¬W q) (c : ByteArray) :
    d'.lookup q = some (.file c) ↔ d.lookup q = some (.file c) := by
  induction h with
  | refl => rfl
  | @directory d₁ _ r _ _ hn ih =>
    by_cases hr : q = r
    · subst hr
      rw [← ih, hn, lookup_put_directory hn]
      simp
    · rw [lookup_put_of_ne _ hr, ih]
  | @file d₁ _ r _ _ _ hw _ ih =>
    have hr : q ≠ r := fun e => hq (e ▸ hw)
    rw [lookup_put_of_ne _ hr, ih]

theorem lookup_directory (h : Puts W d d') (hq : d.lookup q = some .directory) :
    d'.lookup q = some .directory := by
  induction h with
  | refl => exact hq
  | @directory d₁ _ r _ _ hn ih =>
    have hr : q ≠ r := fun e => by rw [← e, ih] at hn; cases hn
    rw [lookup_put_of_ne _ hr, ih]
  | @file d₁ _ r _ _ _ _ hn ih =>
    have hr : q ≠ r := fun e => hn (e ▸ ih)
    rw [lookup_put_of_ne _ hr, ih]

theorem enter (h : Puts W d d') {piece : List Char} {r : Place} (he : d.enter q piece = .ok r) :
    d'.enter q piece = .ok r := by
  unfold Disk.enter at he ⊢
  split at he
  · cases he
  · cases he
  · next hq =>
    rw [h.lookup_directory hq]
    exact he

theorem follow (h : Puts W d d') {r : Place} : ∀ {q : Place} {pieces : List (List Char)},
    d.follow q pieces = .ok r → d'.follow q pieces = .ok r
  | _, [], hf => hf
  | q, piece :: pieces, hf => by
    rw [Disk.follow] at hf ⊢
    split at hf
    · cases hf
    · next he =>
      rw [h.enter he]
      exact h.follow hf

theorem locate (h : Puts W d d') (hp : d.locate p = .ok q) : d'.locate p = .ok q := by
  obtain ⟨hv, hf⟩ := locate_eq_ok.1 hp
  exact locate_eq_ok.2 ⟨hv, h.here ▸ h.follow hf⟩

theorem readText (h : Puts W d d') {s : String} (hs : d.readText p = .ok s)
    (hq : ¬W (p.target d.here)) : d'.readText p = .ok s := by
  obtain ⟨q, hl, hf⟩ := readText_eq_ok.1 hs
  exact readText_eq_ok.2 ⟨q, h.locate hl, (h.lookup_file (locate_eq hl ▸ hq) _).2 hf⟩

end Puts

section Operations

theorem readText_put {s : String} (hq : d.locate p = .ok q) (hd : d.lookup q ≠ some .directory) :
    (d.put q (.file s.toByteArray)).readText p = .ok s := by
  have hput : Puts (· = q) d (d.put q (.file s.toByteArray)) := Puts.refl.file _ hq rfl hd
  refine readText_eq_ok.2 ⟨q, hput.locate hq, ?_⟩
  exact lookup_put_self d (fun e => hd (by rw [e]; rfl)) _

theorem writeBytes_eq {content : ByteArray} (h : d.writeBytes p content = .ok d') :
    ∃ q, d.locate p = .ok q ∧ d.lookup q ≠ some .directory ∧ d' = d.put q (.file content) := by
  unfold writeBytes at h
  split at h
  · cases h
  · next q hq =>
    by_cases he : endsWithSlash p = true
    · rw [if_pos he] at h
      cases h
    rw [if_neg he] at h
    split at h
    · cases h
    · next hd =>
      rw [locateName, trimSlashes_of_not he] at hq
      exact ⟨q, hq, hd, (Except.ok.inj h).symm⟩

theorem writeBytes_puts {content : ByteArray} (h : d.writeBytes p content = .ok d') :
    Puts (· = p.target d.here) d d' := by
  obtain ⟨q, hq, hd, rfl⟩ := writeBytes_eq h
  exact Puts.refl.file content hq (locate_eq hq) hd

theorem makeDirectory_puts {W : Place → Prop} (h : d.makeDirectory p = .ok d') : Puts W d d' := by
  unfold makeDirectory at h
  split at h
  · cases h
  · next q hq =>
    split at h
    · cases h
    · next hn => exact Except.ok.inj h ▸ Puts.refl.directory hq hn

theorem makeDirectories_puts {W : Place → Prop} (d : Disk) (p : Path) :
    Puts W d (d.makeDirectories p).2 := by
  fun_induction makeDirectories d p with
  | case1 => exact .refl
  | case2 _ _ _ h => exact makeDirectory_puts h
  | case3 => exact .refl
  | case4 _ _ _ _ _ _ _ h ih => exact congrArg Prod.snd h ▸ ih
  | case5 _ _ _ _ _ _ h _ hd ih => exact (congrArg Prod.snd h ▸ ih).trans (makeDirectory_puts hd)
  | case6 _ _ _ _ _ _ h _ _ ih => exact congrArg Prod.snd h ▸ ih
  | case7 => exact .refl

theorem copy_puts (d : Disk) (s t : Path) : Puts (· = t.target d.here) d (d.copy s t).2 := by
  unfold copy
  split
  · exact .refl
  · exact .refl
  · split
    · exact .refl
    · next emptied he =>
      have hp := writeBytes_puts he
      split
      · exact hp
      · split
        · exact hp
        · next hc =>
          have hh := writeBytes_puts hc
          rw [hp.here] at hh
          exact hp.trans hh

theorem ofFiles_puts (here : Place) (files : List (Path × ByteArray)) :
    Puts (fun _ => True) ⟨here, []⟩ (Disk.ofFiles here files) := by
  refine List.foldlRecOn files _ (makeDirectories_puts _ _) fun d hd f _ => ?_
  have hp : Puts (fun _ => True) d ((f.1.parent?.map d.makeDirectories).getD (.ok (), d)).2 := by
    cases f.1.parent? with
    | none => exact .refl
    | some p => exact makeDirectories_puts d p
  refine (hd.trans hp).trans ?_
  generalize ((f.1.parent?.map d.makeDirectories).getD (.ok (), d)).2 = above
  show Puts _ above ((above.writeBytes f.1 f.2).toOption.getD above)
  cases hw : above.writeBytes f.1 f.2 with
  | error _ => exact .refl
  | ok written => exact (writeBytes_puts hw).mono fun _ _ => trivial

end Operations

/-- Every place is made of names, and every entry is the one that is found at its place. -/
structure WellFormed (d : Disk) : Prop where
  here : ∀ n ∈ d.here, Path.IsName n
  named : ∀ x ∈ d.entries, ∀ n ∈ x.1, Path.IsName n
  found : ∀ x ∈ d.entries, d.lookup x.1 = some x.2

namespace WellFormed

theorem put (hd : d.WellFormed) (hn : ∀ n ∈ q, Path.IsName n) (hq : q ≠ []) (e : Entry) :
    (d.put q e).WellFormed where
  here := hd.here
  named := fun x hx => by
    rcases List.mem_cons.1 hx with rfl | hx
    · exact hn
    · exact hd.named x ((List.mem_filter.1 hx).1)
  found := fun x hx => by
    rcases List.mem_cons.1 hx with rfl | hx
    · exact lookup_put_self d hq e
    · rw [lookup_put_of_ne d (bne_iff_ne.1 (List.mem_filter.1 hx).2)]
      exact hd.found x ((List.mem_filter.1 hx).1)

theorem of_puts {W : Place → Prop} (hd : d.WellFormed) (h : Puts W d d') : d'.WellFormed := by
  induction h with
  | refl => exact hd
  | directory _ hq hn ih =>
    exact ih.put (locate_named ih.here hq) (fun e => by rw [e] at hn; cases hn) _
  | file c _ hq _ hn ih =>
    exact ih.put (locate_named ih.here hq) (fun e => hn (by rw [e]; rfl)) _

theorem ofFiles {here : Place} (hn : ∀ n ∈ here, Path.IsName n) (files : List (Path × ByteArray)) :
    (Disk.ofFiles here files).WellFormed := by
  have h0 : (⟨here, []⟩ : Disk).WellFormed :=
    ⟨hn, fun _ h => absurd h List.not_mem_nil, fun _ h => absurd h List.not_mem_nil⟩
  exact h0.of_puts (ofFiles_puts here files)

theorem filesBelow (hd : d.WellFormed) (hq : d.lookup q = some .directory) {names : Place}
    (h : names ∈ d.filesBelow q) : names ≠ [] ∧ ∀ n ∈ names, Path.IsName n := by
  obtain ⟨⟨r, e⟩, hx, he⟩ := List.mem_filterMap.1 h
  cases e with
  | directory => simp at he
  | file c =>
    simp only at he
    split at he
    · next hr =>
      obtain ⟨s, rfl⟩ := List.isPrefixOf_iff_prefix.1 hr
      rw [List.drop_left, Option.some.injEq] at he
      subst he
      refine ⟨fun e => ?_, fun n hn => hd.named _ hx n (List.mem_append_right q hn)⟩
      have hf := hd.found _ hx
      rw [e, List.append_nil, hq] at hf
      cases hf
    · cases he

end WellFormed

end Disk

end KernelWrap
