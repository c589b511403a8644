import KernelWrap.Proofs.Accepted
import KernelWrap.Proofs.Lookahead
import KernelWrap.Proofs.Tokens

/-! Where reading fails. The error of a line points at the first token that cannot continue the
declaration: what stands before it is the beginning of one, and with it no declaration can be made
any more. -/

namespace KernelWrap.Declaration
open Text

/-- The error tells of the token with index `k`, which is the first one that cannot continue a
declaration, or of the end of the line where there is no such token. -/
structure ParseError.Blames (e : ParseError) (text : List Char) (ts : List Token) (k : Nat) :
    Prop where
  viable : ∃ z d void, DeclaredKernel.Derives d void (ts.take k ++ tokenize z)
  token : ∀ t, ts[k]? = some t →
    (∃ x y, text = x ++ (t.text ++ y) ∧ t.offset = byteSize x) ∧ e.column = 1 + t.offset ∧
    e.message = e.fault.message ++ ", found " ++ ("`" ++ String.ofList t.text ++ "`") ∧
    ∀ us d void, ¬ DeclaredKernel.Derives d void (ts.take (k + 1) ++ us)
  ending : ts[k]? = none → k = ts.length ∧ (∃ t, ts.getLast? = some t ∧ e.column = 1 + t.stop) ∧
    e.message = e.fault.message ++ ", found " ++ "end of line" ∧
    ∀ d void, ¬ DeclaredKernel.Derives d void ts

section Blame

variable {text : List Char} {line : Nat} {us ts rest : List Token} {t : Token}

theorem not_derives_of_error {g : Fault}
    (h : readDeclaration (us ++ t :: rest) = .error ⟨g, t :: rest⟩) (more : List Token)
    (d : DeclaredKernel) (void : Bool) : ¬ d.Derives void (us ++ t :: more) := by
  intro hd
  have hok := readDeclaration_of_reads hd.reads hd.legal []
  rw [List.append_nil] at hok
  have hsame := SameUpTo.readDeclaration t rest more us
  rw [h, hok] at hsame
  cases hsame.eq_of_error

theorem not_derives_of_error_nil {g : Fault} (h : readDeclaration ts = .error ⟨g, []⟩)
    (d : DeclaredKernel) (void : Bool) : ¬ d.Derives void ts := by
  intro hd
  have hok := readDeclaration_of_reads hd.reads hd.legal []
  rw [List.append_nil, h] at hok
  cases hok

theorem countP_before (hp : (us ++ t :: rest).Pairwise fun a b => a.stop ≤ b.offset)
    (hs : ∀ a ∈ us ++ t :: rest, a.offset < a.stop) :
    (us ++ t :: rest).countP (fun a => a.offset + 1 < t.offset + 1) = us.length := by
  obtain ⟨-, ht, hbefore⟩ := List.pairwise_append.1 hp
  obtain ⟨hbehind, -⟩ := List.pairwise_cons.1 ht
  have hus : us.countP (fun a => a.offset + 1 < t.offset + 1) = us.length := by
    refine List.countP_eq_length.2 fun a ha => decide_eq_true ?_
    have hlt := hs a (List.mem_append_left _ ha)
    have hle := hbefore a ha t List.mem_cons_self
    omega
  have hrest : (t :: rest).countP (fun a => a.offset + 1 < t.offset + 1) = 0 := by
    refine List.countP_eq_zero.2 fun a ha => ?_
    rw [decide_eq_true_eq]
    rcases List.mem_cons.1 ha with rfl | ha
    · exact Nat.lt_irrefl _
    · have hlt := hs t (List.mem_append_right _ List.mem_cons_self)
      have hle := hbehind a ha
      omega
  rw [List.countP_append, hus, hrest, Nat.add_zero]

theorem countP_all (hp : (us ++ [t]).Pairwise fun a b => a.stop ≤ b.offset)
    (hs : ∀ a ∈ us ++ [t], a.offset < a.stop) :
    (us ++ [t]).countP (fun a => a.offset + 1 < t.stop + 1) = (us ++ [t]).length := by
  obtain ⟨-, -, hbefore⟩ := List.pairwise_append.1 hp
  refine List.countP_eq_length.2 fun a ha => decide_eq_true ?_
  have hlt := hs a ha
  rcases List.mem_append.1 ha with hm | hm
  · have hle := hbefore a hm t List.mem_cons_self
    have hlast := hs t (List.mem_append_right us List.mem_cons_self)
    omega
  · rw [List.mem_singleton.1 hm] at hlt ⊢
    omega

theorem blames_of_cons {g : Fault} (hts : fromKernel (tokenize text) = us ++ t :: rest)
    (hread : readDeclaration (us ++ t :: rest) = .error ⟨g, t :: rest⟩)
    (hviable : ∃ z d void, DeclaredKernel.Derives d void (us ++ tokenize z)) :
    ParseError.Blames ⟨line, t.offset + 1, g, some (String.ofList t.text)⟩ text
      (us ++ t :: rest) us.length := by
  have hget : (us ++ t :: rest)[us.length]? = some t := by simp
  refine ⟨by rwa [List.take_left], fun a ha => ?_, fun hn => ?_⟩
  · cases hget.symm.trans ha
    have hmem : t ∈ fromKernel (tokenize text) := hts ▸ List.mem_append_right us List.mem_cons_self
    obtain ⟨x, y, hx, ho, -⟩ := begins_of_mem_tokenize ((fromKernel_suffix _).subset hmem)
    refine ⟨⟨x, y, hx, ho⟩, Nat.add_comm _ _, rfl, fun more d void => ?_⟩
    have htake : (us ++ t :: rest).take (us.length + 1) = us ++ [t] :=
      List.take_length_add_append 1
    rw [htake, List.append_assoc]
    exact not_derives_of_error hread more d void
  · rw [hget] at hn
    cases hn

theorem blames_of_nil {g : Fault} (hread : readDeclaration (us ++ [t]) = .error ⟨g, []⟩)
    (hviable : ∃ z d void, DeclaredKernel.Derives d void (us ++ [t] ++ tokenize z)) :
    ParseError.Blames ⟨line, t.stop + 1, g, none⟩ text (us ++ [t]) (us ++ [t]).length := by
  have hget : (us ++ [t])[(us ++ [t]).length]? = none := List.getElem?_eq_none (Nat.le_refl _)
  refine ⟨by rwa [List.take_length], fun a ha => ?_, fun _ => ?_⟩
  · rw [hget] at ha
    cases ha
  · exact ⟨rfl, ⟨t, List.getLast?_concat, Nat.add_comm _ _⟩, rfl, not_derives_of_error_nil hread⟩

theorem blames_of_readLine {e : ParseError} (h : readLine text line = .error e) :
    e.Blames text (fromKernel (tokenize text))
      ((fromKernel (tokenize text)).countP fun t => t.offset + 1 < e.column) := by
  have hne : fromKernel (tokenize text) ≠ [] := fromKernel_of_readLine (h.trans_ne nofun)
  have hsuffix := fromKernel_suffix (tokenize text)
  have hpairwise := (pairwise_tokenizeFrom 0 text).sublist hsuffix.sublist
  have hstops : ∀ a ∈ fromKernel (tokenize text), a.offset < a.stop := fun a ha =>
    offset_lt_stop (hsuffix.subset ha)
  rw [readLine_of_ne_nil hne] at h
  split at h
  · cases h
  · next g hread =>
    cases h
    obtain ⟨us, d, void, hts, hlegal, z, hz⟩ := completable_of_readDeclaration hread
    obtain ⟨fault, left⟩ := g
    have hviable : ∃ z d void, DeclaredKernel.Derives d void (us ++ tokenize z) :=
      ⟨z, d, void, hlegal, hz⟩
    cases left with
    | cons t rest =>
      rw [hts] at hread hpairwise hstops ⊢
      rw [ParseError.ofFailure, countP_before hpairwise hstops]
      exact blames_of_cons hts hread hviable
    | nil =>
      rw [List.append_nil] at hts
      obtain ⟨vs, t, rfl⟩ : ∃ vs t, us = vs ++ [t] := by
        obtain ⟨vs, t, e⟩ := us.eq_nil_or_concat.resolve_left (hts ▸ hne)
        exact ⟨vs, t, e.trans List.concat_eq_append⟩
      have hlast : (tokenize text).getLast? = some t := by
        obtain ⟨pre, hpre⟩ := hsuffix
        rw [← hpre, hts, ← List.append_assoc, List.getLast?_concat]
      rw [hts] at hread hpairwise hstops ⊢
      simp only [ParseError.ofFailure, hlast, Option.map_some, Option.getD_some]
      rw [countP_all hpairwise hstops]
      exact blames_of_nil hread hviable

end Blame

/-- A line that cannot be read is reported at the first token that cannot continue the declaration
which begins at the first keyword: at its byte in the line, with its text. The tokens before it are
the beginning of a declaration, and together with it they are not. Where all tokens can be continued,
the end of the line is reported behind the last of them. -/
theorem readLineTree_blames {text : List Char} {line : Nat} {f : LineFault}
    (h : readLineTree text line = .error f) :
    ∃ e, f = .unread e ∧ readLine text line = .error e ∧ e.line = line ∧
      e.Blames text (fromKernel (tokenize text))
        ((fromKernel (tokenize text)).countP fun t => t.offset + 1 < e.column) := by
  rw [readLineTree_eq] at h
  cases hline : readLine text line with
  | ok s => rw [hline] at h; cases h
  | error e =>
    rw [hline] at h
    cases h
    exact ⟨e, rfl, rfl, line_of_readLine.2 e hline, blames_of_readLine hline⟩

def spacesLine : List Char := "\u00e9 kernel void k(global local float* a)".toList

theorem readLineTree_blames_spaces : ∃ e, readLineTree spacesLine 7 = .error (.unread e) ∧
    e.display = "line 7, column 25: conflicting address space qualifiers, found `local`" ∧
    e.Blames spacesLine (fromKernel (tokenize spacesLine)) 5 := by
  have hread : readLineTree spacesLine 7 =
      .error (.unread ⟨7, 25, .secondSpace, some "local"⟩) := by decide +kernel
  obtain ⟨e, he, -, -, hblames⟩ := readLineTree_blames hread
  cases he
  have hcount : (fromKernel (tokenize spacesLine)).countP (fun t => t.offset + 1 < 25) = 5 := by
    decide +kernel
  rw [hcount] at hblames
  exact ⟨_, hread, by decide +kernel, hblames⟩

end KernelWrap.Declaration
