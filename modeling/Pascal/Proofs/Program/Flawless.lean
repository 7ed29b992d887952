import Pascal.Proofs.Group.Expanded
import Pascal.Proofs.Program.Units

/-!
# No error in the nesting is passed over

Reading a source text need not look into all of its groups. What is wrong in one of them is recorded in the
root as well, where it is looked for in the end.
-/

namespace Pascal

/-- A source text that is read shows no error in the end. -/
theorem Group.errors_of_parse {α : Type} {g : Group} {p : Parser α} {a : α} (h : g.parse p = .ok a) :
    g.errors = [] := by
  obtain ⟨_, -, h⟩ := bind_eq_ok.mp h
  dsimp only at h
  split at h
  · assumption
  · cases h

/-- Nothing is wrong with the source texts of the units that are loaded. -/
def Session.Flawless (t : Toolchain) (s : Session) : Prop :=
  ∀ u ∈ s.code, ∃ text, t.unitSource u.name default = .ok text ∧ t.sources.Flawless u.name text

/-- Loads units from source texts with which nothing is wrong. -/
def UnitLoader.Inspects (t : Toolchain) (load : UnitLoader) : Prop :=
  ∀ name pos (s : Session) scope s', s.Flawless t → load name pos s = .ok (scope, s') → s'.Flawless t

namespace Session

variable {t : Toolchain} {s s' : Session}

theorem Flawless.of_code (h : s.Flawless t) (hcode : s'.code = s.code) : s'.Flawless t := by
  unfold Flawless
  rw [hcode]
  exact h

theorem code_library? {name : String} {id : Nat} (h : s.library? t name = some (id, s')) :
    s'.code = s.code := by
  rcases library?_eq_some h with rfl | ⟨l, -, rfl⟩ <;> rfl

theorem code_open (s : Session) (t : Toolchain) (kind : ScopeKind) (name : String) :
    (s.open_ t kind name).2.code = s.code := by
  unfold open_
  dsimp only [importSystem]
  split
  · next h =>
    have hcode := code_library? h
    exact hcode
  · rfl

end Session

namespace Parser

variable {t : Toolchain} {load : UnitLoader} {scope : Nat} {s : Session}

theorem Yields.any {α : Type} (p : Parser α) : p.Yields (fun _ => True) (fun _ => True) :=
  fun _ _ _ _ _ => ⟨trivial, trivial⟩

theorem Yields.declare_flawless (hs : s.Flawless t) (part : Section) :
    (Parser.declare scope part s).Yields (fun _ => True) (Session.Flawless t) :=
  (Yields.any _).bind fun _ _ => .pure hs

variable (hload : load.Inspects t)

include hload

theorem Yields.usedName_flawless (hs : s.Flawless t) :
    (Parser.usedName t load scope s).Yields (fun _ => True) (Session.Flawless t) := by
  refine (Yields.any _).bind fun (name, p) _ => ?_
  dsimp only
  split
  · next h =>
    have hcode := Session.code_library? h
    exact .pure (hs.of_code hcode)
  · refine Yields.check.bind fun (unit, s') h => .pure ?_
    exact hload name p s unit s' hs h

theorem Yields.uses_flawless (hs : s.Flawless t) :
    (Parser.uses t load scope s).Yields (fun _ => True) (Session.Flawless t) := by
  refine (Yields.any _).bind fun found _ => ?_
  cases found with
  | false => exact .pure hs
  | true =>
    refine (Yields.usedName_flawless hload hs).bind fun s₁ h₁ => ?_
    refine (Yields.iterate h₁ fun s₂ h₂ => ?_).bind fun s₃ h₃ => (Yields.any _).bind fun _ _ => .pure h₃
    refine (Yields.any _).bind fun more _ => ?_
    cases more with
    | false => exact .pure (by simp)
    | true =>
      refine (Yields.usedName_flawless hload h₂).map (f := some) ?_
      rintro s₃ h₃ s₄ ⟨⟩
      exact h₃

theorem Yields.program_flawless (hs : s.Flawless t) :
    (Parser.program t load scope s).Yields (fun _ => True) (fun r => r.2.Flawless t) := by
  refine (Yields.any _).bind fun _ _ => (Yields.uses_flawless hload hs).bind fun s₁ h₁ => ?_
  refine (Yields.declare_flawless h₁ _).bind fun s₂ h₂ => (Yields.any _).bind fun _ _ => ?_
  exact (Yields.any _).bind fun _ _ => (Yields.any _).bind fun _ _ => (Yields.any _).bind fun _ _ => .pure h₂

theorem Yields.unitBody_flawless (hs : s.Flawless t) :
    (Parser.unitBody t load scope s).Yields (fun _ => True) (fun r => r.2.2.Flawless t) := by
  refine (Yields.any _).bind fun _ _ => (Yields.any _).bind fun _ _ => (Yields.any _).bind fun _ _ => ?_
  refine (Yields.uses_flawless hload hs).bind fun s₁ h₁ => ?_
  refine (Yields.declare_flawless h₁ _).bind fun s₂ h₂ => (Yields.any _).bind fun _ _ => ?_
  refine (Yields.uses_flawless hload h₂).bind fun s₃ h₃ => ?_
  refine (Yields.declare_flawless h₃ _).bind fun s₄ h₄ => ?_
  exact (Yields.any _).bind fun _ _ => (Yields.any _).bind fun _ _ => .pure h₄

end Parser

namespace Toolchain

variable {t : Toolchain} {unit source : String}

theorem compileUnit_flawless {load : UnitLoader} (hload : load.Inspects t) {s s' : Session} {scope : Nat}
    {name : String} (hs : s.Flawless t) (hsource : t.unitSource name default = .ok source)
    (h : t.compileUnit load source name s = .ok (scope, s')) : s'.Flawless t := by
  have htext := Group.flawless_of_errors (Group.errors_of_parse h)
  obtain ⟨c, hread⟩ := Group.parse_eq_ok h
  have hopened : (s.open_ t .unit name).2.Flawless t := hs.of_code (s.code_open t .unit name)
  have hadds : ∀ {p : Parser (Nat × Session)} {c'}, p.Yields (fun _ => True) (fun r => r.2.Flawless t) →
      p c' = .ok ((scope, s'), c) → s'.Flawless t := fun hp hread => (hp trivial hread).1
  refine hadds ?_ hread
  refine (Parser.Yields.any _).bind fun g _ => ?_
  refine (Parser.Yields.inside trivial (Parser.Yields.unitBody_flawless hload hopened)).bind fun r hr => ?_
  refine .pure (List.forall_mem_cons.mpr ⟨⟨source, hsource, htext⟩, hr⟩)

theorem loadWithin_inspects (t : Toolchain) (depth : Nat) : (t.loadWithin depth).Inspects t := by
  induction depth with
  | zero => exact fun name pos s scope s' _ h => by cases h
  | succ depth ih =>
    intro name pos s scope s' hs h
    unfold loadWithin at h
    dsimp only at h
    split at h
    · cases h
      exact hs
    · cases h
    · obtain ⟨source, hsource, h⟩ := bind_eq_ok.mp h
      obtain ⟨⟨unit, s₁⟩, hunit, h⟩ := bind_eq_ok.mp h
      cases h
      have hmarked : (s.mark (Text.lower name) .loading).Flawless t := hs
      have hloaded := compileUnit_flawless ih hmarked (unitSource_eq_ok hsource) hunit
      exact hloaded

/-- Nothing is wrong with the source texts of a program that is not folded yet. -/
theorem compilePlain_flawless {p : Program} (h : t.compilePlain unit source = .ok p) :
    t.sources.Flawless unit source ∧
    ∀ u ∈ p.units, ∃ text, t.unitSource u.name default = .ok text ∧ t.sources.Flawless u.name text := by
  obtain ⟨⟨body, s⟩, hparse, h⟩ := bind_eq_ok.mp h
  dsimp only at h
  split at h
  · cases h
  · cases h
    have hbegin : (Session.open_ t .program unit {}).2.Flawless t := by
      refine Session.Flawless.of_code (s := {}) (fun u hu => by cases hu) ?_
      exact Session.code_open {} t .program unit
    obtain ⟨c, hread⟩ := Group.parse_eq_ok hparse
    have hflawless := (Parser.Yields.program_flawless (loadWithin_inspects t _) hbegin trivial hread).1
    refine ⟨Group.flawless_of_errors (Group.errors_of_parse hparse), fun u hu => ?_⟩
    exact hflawless u (List.mem_reverse.mp hu)

/-- No error in the nesting is passed over. What a group has recorded is a piece of what each group around
it has recorded, up to the root. If a source text compiles, then nothing is wrong with it and with the
source texts of its units: they and all that they include are scanned without a fault, and there is no
error in their groups at any level. -/
theorem compile_flawless (t : Toolchain) (unit source : String) :
    (∀ inner outer : Group, outer = Group.assemble t.sources unit source ∨
        outer.Inside (Group.assemble t.sources unit source) →
      inner.Inside outer → inner.errors <:+: outer.errors) ∧
    ∀ p, t.compile unit source = .ok p →
      t.sources.Flawless unit source ∧
      ∀ u ∈ p.units, ∃ text, t.unitSource u.name default = .ok text ∧ t.sources.Flawless u.name text := by
  constructor
  · rintro inner outer (rfl | houter) hinner
    · cases Group.assemble_echoed t.sources unit source hinner with
      | group hpiece _ => exact hpiece
    · cases Group.assemble_echoed t.sources unit source houter with
      | group _ hitems =>
        cases Item.Within.echoed hinner hitems with
        | group hpiece _ => exact hpiece
  · intro p h
    obtain ⟨q, hq, rfl⟩ := compile_eq_ok h
    obtain ⟨hmain, hunits⟩ := compilePlain_flawless hq
    split
    · refine ⟨hmain, fun u hu => ?_⟩
      obtain ⟨v, hv, rfl⟩ := List.mem_map.mp hu
      exact hunits v hv
    · exact ⟨hmain, hunits⟩

/-- A unit and a text to include. -/
def shelf : Toolchain where
  sources :=
    { disk := ⟨[
        (["base.pas"], .file "unit base; interface implementation initialization {$I greet} end.".toUTF8),
        (["greet"], .file "writeln(1);".toUTF8)]⟩
      directories := [""] }
  libraries := Library.standard

/-- A program that uses the unit, and one with a group that is left open inside of another one. -/
theorem compile_flawless_shelf :
    (∃ p u text, shelf.compile "main" "uses base; begin {$I greet} end." = .ok p ∧ p.units = [u] ∧
      shelf.sources.Flawless "main" "uses base; begin {$I greet} end." ∧
      shelf.unitSource "base" default = .ok text ∧ shelf.sources.Flawless "base" text) ∧
    ∃ inner outer : Group, outer.Inside (Group.assemble shelf.sources "main" "begin (x") ∧
      inner.Inside outer ∧ inner.errors.length = 1 ∧ inner.errors <:+: outer.errors := by
  have hcheck : (shelf.compile "main" "uses base; begin {$I greet} end.").toOption.any fun p =>
      p.units.map (·.name) == ["base"] := by decide +kernel
  obtain ⟨p, hp, hnames⟩ := exists_ok_of_any hcheck
  obtain ⟨u, rest, hunits, hbase, hrest⟩ := List.map_eq_cons_iff.mp (eq_of_beq hnames)
  cases List.map_eq_nil_iff.mp hrest
  obtain ⟨-, hflawless⟩ := compile_flawless shelf "main" "uses base; begin {$I greet} end."
  obtain ⟨hmain, hall⟩ := hflawless p hp
  obtain ⟨text, htext, hunit⟩ := hall u (by simp [hunits])
  rw [hbase] at htext hunit
  refine ⟨⟨p, u, text, hp, hunits, hmain, htext, hunit⟩, ?_⟩
  have hopen : (Group.assemble shelf.sources "main" "begin (x").groups.any (fun outer =>
      outer.groups.any fun inner => inner.errors.length == 1) := by decide +kernel
  obtain ⟨outer, houter, hinner⟩ := List.any_eq_true.mp hopen
  obtain ⟨inner, hinner, hlength⟩ := List.any_eq_true.mp hinner
  have houter := Group.inside_of_mem_groups houter
  have hinner := Group.inside_of_mem_groups hinner
  refine ⟨inner, outer, houter, hinner, eq_of_beq hlength, ?_⟩
  exact (compile_flawless shelf "main" "begin (x").1 inner outer (.inr houter) hinner

end Toolchain

end Pascal
