import Pascal.Proofs.Caseless.Run

/-!
# The case of names does not matter

Two texts with the same tokens up to case are compiled to programs that are the same in lower case, or
are refused alike. So they run in the same way.
-/

namespace Pascal

open Text

/-- The program that has been read, unless one of its routines has no body. -/
def Session.finish (s : Session) (main : Nat) (body : Stmt) : Checked Program :=
  match s.arena.missingBodies with
  | f :: _ => throw (.scope (.missingBody f.name f.pos))
  | [] => return { arena := s.arena, main, body, units := s.code.reverse }

theorem Session.finish_lowered (s : Session) (main : Nat) (body : Stmt) :
    Checked.Matches Program.lowered (s.finish main body) (s.lowered.finish main body.lowered) := by
  have hmissing : s.lowered.arena.missingBodies = s.arena.missingBodies.map UserRoutine.lowered :=
    s.arena.missingBodies_lowered
  unfold finish
  rw [hmissing]
  cases s.arena.missingBodies with
  | nil =>
    refine .of_eq _ ?_
    simp [Program.lowered, lowered]
  | cons f fs => exact .error rfl

namespace Token

/-- A text has directives if one with the same tokens up to case has them. -/
theorem exists_includes_of_caseless {ts ts' : List (Except LexError Token)} {tok : Token}
    {name : String} (h : ts.map caseless = ts'.map caseless) (hmem : .ok tok ∈ ts')
    (hkind : tok.kind = .includes name) : ∃ tok', .ok tok' ∈ ts ∧ tok'.kind = .includes name := by
  have hlowered : .ok tok.lowered ∈ ts.map caseless := by
    rw [h]
    exact List.mem_map_of_mem hmem
  obtain ⟨r, hr, hsame⟩ := List.mem_map.mp hlowered
  cases r with
  | error e => cases hsame
  | ok tok' =>
    have hsame : tok'.lowered.kind = tok.lowered.kind := congrArg Token.kind (Except.ok.inj hsame)
    refine ⟨tok', hr, ?_⟩
    obtain ⟨kind, p⟩ := tok'
    rw [lowered, lowered, hkind] at hsame
    cases kind <;> simp_all [Kind.lowered]

/-- Whether two kinds are found to be the same up to case. Neither directives nor real numbers are, the
latter because they cannot be compared. -/
def Kind.alike : Kind → Kind → Bool
  | identifier a, identifier b => sameName a b
  | integer a, integer b => a = b
  | long a, long b => a = b
  | char a, char b => a = b
  | string a, string b => a = b
  | keyword a, keyword b => a = b
  | symbol a, symbol b => a = b
  | eof, eof => true
  | _, _ => false

theorem Kind.lowered_of_alike {k k' : Kind} (h : k.alike k') :
    k.lowered = k'.lowered ∧ ∀ name, k ≠ .includes name := by
  cases k <;> cases k' <;> simp_all [alike, sameName, lowered]

/-- Whether two rows of tokens are found to be the same up to case, with no faults among them. -/
def areAlike : List (Except LexError Token) → List (Except LexError Token) → Bool
  | [], [] => true
  | .ok t :: ts, .ok t' :: ts' => t.kind.alike t'.kind && t.pos == t'.pos && areAlike ts ts'
  | _, _ => false

theorem caseless_of_areAlike {ts ts' : List (Except LexError Token)} (h : areAlike ts ts') :
    ts.map caseless = ts'.map caseless ∧ ∀ t, .ok t ∈ ts → ∀ name, t.kind ≠ .includes name := by
  induction ts, ts' using areAlike.induct with
  | case1 => exact ⟨rfl, by simp⟩
  | case2 t ts t' ts' ih =>
    simp only [areAlike, Bool.and_eq_true, beq_iff_eq] at h
    obtain ⟨⟨hkind, hpos⟩, hrest⟩ := h
    obtain ⟨hlowered, hplain⟩ := Kind.lowered_of_alike hkind
    obtain ⟨hsame, hothers⟩ := ih hrest
    refine ⟨?_, fun u hu => ?_⟩
    · rw [List.map_cons, List.map_cons, hsame, caseless, caseless, lowered, lowered, hlowered, hpos]
    · rcases List.mem_cons.mp hu with hu | hu
      · cases hu
        exact hplain
      · exact hothers u hu
  | case3 ts ts' hnil hcons =>
    rw [areAlike] at h
    · cases h
    · exact hnil
    · exact hcons

end Token

namespace Toolchain

variable {t : Toolchain} {unit source source' : String}

/-- A program without units is in lower case what the groups of its text come to in lower case. -/
theorem compilePlain_lowered (hunits : t.UsesNoUnit unit source) :
    Checked.Matches Program.lowered (t.compilePlain unit source) (do
      let r ← (Group.assemble t.sources unit source).lowered.parse (Parser.program t.lowered .notFound
        (Session.open_ t .program unit {}).1 (Session.open_ t .program unit {}).2.lowered)
      r.2.finish (Session.open_ t .program unit {}).1 r.1) := by
  have hplain : t.compilePlain unit source = (do
      let r ← (Group.assemble t.sources unit source).parse (Parser.program t t.load
        (Session.open_ t .program unit {}).1 (Session.open_ t .program unit {}).2)
      r.2.finish (Session.open_ t .program unit {}).1 r.1) := rfl
  have hload : ∀ (name : String) (pos : Position) (s : Session), Checked.Matches
      (Prod.map id Session.lowered) (UnitLoader.notFound name pos s)
        (UnitLoader.notFound (lower name) pos s.lowered) := fun _ _ _ => .error rfl
  rw [hplain, hunits.parse]
  refine ((Parser.Matches.program hload _ _).parse _).bind fun r => ?_
  exact r.2.finish_lowered _ r.1

/-- Folding breaks off for both of two programs that are the same but for the case of names, or for none
of them. -/
theorem folded_caseless {p p' : Program} (h : p.lowered = p'.lowered) :
    (∃ pos, t.folded p = .error (.crash pos) ∧ t.folded p' = .error (.crash pos)) ∨
    ∃ q q', t.folded p = .ok q ∧ t.folded p' = .ok q' ∧ q.lowered = q'.lowered := by
  have hpos : p.body.pos = p'.body.pos := by
    rw [← p.body.pos_lowered, ← p'.body.pos_lowered]
    exact congrArg (fun p : Program => p.body.pos) h
  have hfold : p.fold?.map Program.lowered = p'.fold?.map Program.lowered := by
    rw [← p.fold?_lowered, ← p'.fold?_lowered, h]
  unfold folded
  split
  · cases hq : p.fold? with
    | none =>
      have hq' : p'.fold? = none := by simpa [hq] using hfold
      rw [hq', hpos]
      exact .inl ⟨_, rfl, rfl⟩
    | some q =>
      obtain ⟨q', hq', hlowered⟩ : ∃ q', p'.fold? = some q' ∧ q'.lowered = q.lowered := by
        simpa [hq, eq_comm] using hfold
      rw [hq']
      exact .inr ⟨q, q', rfl, rfl, hlowered.symm⟩
  · exact .inr ⟨p, p', rfl, rfl, h⟩

variable
  (htokens : (Token.scan unit source).map Token.caseless = (Token.scan unit source').map Token.caseless)
  (hplain : ∀ tok, .ok tok ∈ Token.scan unit source → ∀ name, tok.kind ≠ .includes name)
  (hunits : t.UsesNoUnit unit source) (hunits' : t.UsesNoUnit unit source')

include htokens hplain hunits hunits'

theorem compilePlain_caseless :
    (∃ e e', t.compilePlain unit source = .error e ∧ t.compilePlain unit source' = .error e' ∧
      e.outline = e'.outline) ∨
    ∃ p p', t.compilePlain unit source = .ok p ∧ t.compilePlain unit source' = .ok p' ∧
      p.lowered = p'.lowered := by
  have hplain' : ∀ tok, .ok tok ∈ Token.scan unit source' → ∀ name, tok.kind ≠ .includes name := by
    intro tok htok name hkind
    obtain ⟨tok', htok', hkind'⟩ := Token.exists_includes_of_caseless htokens htok hkind
    exact hplain tok' htok' name hkind'
  have hgroups : (Group.assemble t.sources unit source).lowered =
      (Group.assemble t.sources unit source').lowered :=
    Group.assemble_lowered htokens hplain hplain'
  have hfirst := compilePlain_lowered hunits
  have hsecond := compilePlain_lowered hunits'
  rw [hgroups] at hfirst
  exact hfirst.both hsecond

/-- The case of names and words does not matter. Two texts without directives and without units that have
the same tokens at the same places up to case are both refused, with complaints of one kind at one
place, or both compiled. Then the programs run in the same way: they end alike and on the same world,
whatever they are given. -/
theorem compile_caseless :
    (∃ e e', t.compile unit source = .error e ∧ t.compile unit source' = .error e' ∧
      e.outline = e'.outline ∧ e.pos = e'.pos) ∨
    ∃ p p', t.compile unit source = .ok p ∧ t.compile unit source' = .ok p' ∧
      ∀ (settings : Settings) (l : Option Listener) (n : Nat) (w : World),
        (p.run settings l n w).1 = (p'.run settings l n w).1 ∧
        (p.run settings l n w).2.world = (p'.run settings l n w).2.world := by
  rcases compilePlain_caseless htokens hplain hunits hunits' with
    ⟨e, e', he, he', hsame⟩ | ⟨p, p', hp, hp', hsame⟩
  · refine .inl ⟨e, e', by rw [compile, he]; rfl, by rw [compile, he']; rfl, hsame, ?_⟩
    rw [← e.pos_outline, hsame, e'.pos_outline]
  · have hcompile : t.compile unit source = t.folded p := by rw [compile, hp]; rfl
    have hcompile' : t.compile unit source' = t.folded p' := by rw [compile, hp']; rfl
    rw [hcompile, hcompile']
    rcases folded_caseless (t := t) hsame with ⟨pos, hq, hq'⟩ | ⟨q, q', hq, hq', hlowered⟩
    · exact .inl ⟨_, _, hq, hq', rfl, rfl⟩
    · refine .inr ⟨q, q', hq, hq', fun settings l n w => ?_⟩
      obtain ⟨houtcome, hworld⟩ := q.run_lowered settings l n w
      obtain ⟨houtcome', hworld'⟩ := q'.run_lowered settings l n w
      rw [houtcome, houtcome', hworld, hworld', hlowered]
      exact ⟨rfl, rfl⟩

end Toolchain

/-- A program, and the same one in another spelling. -/
def Toolchain.spelt : String :=
  "uses Math; var X: ^integer; function F(N: integer): integer; begin f := n end; begin New(x); X^ := F(4) end."

def Toolchain.speltOtherwise : String :=
  "USES math; VAR x: ^Integer; FUNCTION f(n: Integer): INTEGER; BEGIN F := N END; BEGIN new(X); x^ := f(4) END."

/-- Both spellings are compiled, since one of them is. -/
theorem Toolchain.compile_caseless_spelt : ∃ p p', standard.compile "test" spelt = .ok p ∧
    standard.compile "test" speltOtherwise = .ok p' ∧
    ∀ (settings : Settings) (l : Option Listener) (n : Nat) (w : World),
      (p.run settings l n w).1 = (p'.run settings l n w).1 ∧
      (p.run settings l n w).2.world = (p'.run settings l n w).2.world := by
  have halike : Token.areAlike (Token.scan "test" spelt) (Token.scan "test" speltOtherwise) := by
    decide +kernel
  have hused : (Item.usedNames false (Group.assemble standard.sources "test" spelt).items).all
      standard.isLibrary := by decide +kernel
  have hused' : (Item.usedNames false (Group.assemble standard.sources "test" speltOtherwise).items).all
      standard.isLibrary := by decide +kernel
  have hok : (standard.compile "test" spelt).isOk := by decide +kernel
  obtain ⟨q, hq⟩ := exists_of_isOk hok
  obtain ⟨htokens, hplain⟩ := Token.caseless_of_areAlike halike
  rcases compile_caseless htokens hplain (.of_libraries hused) (.of_libraries hused') with
    ⟨e, e', he, -⟩ | hsame
  · rw [hq] at he
    cases he
  · exact hsame

end Pascal
