import Pascal.Proofs.Program.Bounded
import Pascal.Proofs.Program.Units

/-!
# Programs without units

Where the names behind `uses` are those of libraries or of nothing at all, a program is read as with a
loader that finds no unit.
-/

namespace Pascal

/-- Finds no unit. -/
def UnitLoader.notFound : UnitLoader := fun name pos _ => .error (.scope (.libraryNotFound name pos))

namespace Toolchain

/-- Whether a name means a library, or else nothing that a file holds. -/
def NamesNoUnit (t : Toolchain) (name : String) : Prop :=
  t.isLibrary name ∨ ∀ pos, t.unitSource name pos = .error (.scope (.libraryNotFound name pos))

/-- Whether the text of a program uses no unit of any file. -/
def UsesNoUnit (t : Toolchain) (unit source : String) : Prop :=
  ∀ name ∈ Item.usedNames false (Group.assemble t.sources unit source).items, t.NamesNoUnit name

theorem UsesNoUnit.of_libraries {t : Toolchain} {unit source : String}
    (h : (Item.usedNames false (Group.assemble t.sources unit source).items).all t.isLibrary) :
    t.UsesNoUnit unit source :=
  fun name hname => .inl (List.all_eq_true.mp h name hname)

end Toolchain

namespace Session

variable {t : Toolchain} {s s' : Session}

/-- A session that has met no unit. -/
structure Unitless (t : Toolchain) (s : Session) : Prop where
  sound : s.Sound t False
  units : s.units = []

/-- Libraries that become known are no units. -/
theorem Unitless.library {name : String} {id : Nat} (h : s.Unitless t)
    (hfound : s.library? t name = some (id, s')) (scope : Nat) :
    (s'.addImport scope (.library id)).Unitless t where
  sound := by
    have hgoes := Goes.library? h.sound hfound
    exact (Goes.addLibrary hgoes.sound).sound
  units := by
    rcases library?_eq_some hfound with rfl | ⟨l, -, rfl⟩ <;> exact h.units

/-- The session in which a program begins has met no unit. -/
theorem unitless_open (t : Toolchain) (unit : String) : (open_ t .program unit {}).2.Unitless t where
  sound := (Toolchain.open_settled unit (Toolchain.settled_empty t) (.inl rfl)).1.sound
  units := (importSystem_same t 0 _).1

end Session

namespace Toolchain

variable {t : Toolchain} {s : Session} {name : String}

theorem load_of_unitless (hs : s.Unitless t)
    (hfile : ∀ pos, t.unitSource name pos = .error (.scope (.libraryNotFound name pos)))
    (pos : Position) : t.load name pos s = UnitLoader.notFound name pos s := by
  have hstate : s.unitState? (Text.lower name) = none := by
    rw [Session.unitState?, hs.units]
    rfl
  rw [load, loadWithin, hstate, hfile]
  rfl

end Toolchain

namespace Parser

open Session

variable {t : Toolchain} {scope : Nat} {s : Session} {names : List String}

/-- A name of a clause is used by a loader that finds no unit: it is that of a library. -/
theorem Meets.usedLibrary (hs : s.Unitless t) :
    (Parser.usedName t .notFound scope s).Meets (Cursor.InClause names)
      (fun s' c => ∃ rest, c.InClause rest ∧ rest ⊆ names ∧ s'.Unitless t) := by
  refine Meets.clauseName.bind fun found => ?_
  obtain ⟨name, p⟩ := found
  dsimp only
  cases hfound : s.library? t name with
  | some found =>
    refine Meets.pure fun c hc => ?_
    obtain ⟨rest, rfl, hc⟩ := hc
    exact ⟨rest, hc, List.subset_cons_self name rest, hs.library hfound scope⟩
  | none => exact fun _ _ _ _ h => by cases h

/-- Behind a comma there is one more name. -/
theorem Meets.nextLibrary (s : Session) : (do
      if !(← eatSymbol .comma) then return none
      some <$> Parser.usedName t .notFound scope s : Parser (Option Session)).Meets
    (fun c => ∃ rest, c.InClause rest ∧ rest ⊆ names ∧ s.Unitless t)
    (fun r c => ∃ rest, c.InClause rest ∧ rest ⊆ names ∧ (r.getD s).Unitless t) := by
  refine Meets.of_exists fun rest hrest => Meets.eatComma.bind fun b => ?_
  cases b with
  | false => exact Meets.pure fun c hc => ⟨rest, hc, hrest⟩
  | true =>
    refine (Meets.usedLibrary hrest.2).map fun s' c hc => ?_
    obtain ⟨rest', hc, hsub, hs'⟩ := hc
    exact ⟨rest', hc, List.Subset.trans hsub hrest.1, hs'⟩

namespace Agrees

variable (hnames : ∀ name ∈ names, t.NamesNoUnit name)

include hnames

theorem usedLibrary (hs : s.Unitless t) :
    (Parser.usedName t .notFound scope s).Agrees (Cursor.InClause names)
      (Parser.usedName t t.load scope s) := by
  refine Agrees.behind Meets.clauseName fun found => ?_
  obtain ⟨name, p⟩ := found
  rintro c ⟨rest, rfl, -⟩
  have hlibrary := isSome_library? hs.sound name
  dsimp only
  cases hfound : s.library? t name with
  | some found => rfl
  | none =>
    rw [hfound] at hlibrary
    rcases hnames name List.mem_cons_self with hname | hfile
    · rw [hname] at hlibrary
      cases hlibrary
    · rw [Toolchain.load_of_unitless hs hfile]

theorem usesLibraries (hs : s.Unitless t) :
    (Parser.uses t .notFound scope s).Agrees (Cursor.Waits names) (Parser.uses t t.load scope s) := by
  refine Agrees.behind Meets.eatUses fun b => ?_
  cases b with
  | false => exact Agrees.refl _
  | true =>
    refine (usedLibrary hnames hs).bind (Meets.usedLibrary hs) fun s₁ => ?_
    refine (Agrees.iterate Meets.nextLibrary (fun s₂ => ?_) s₁).before
    refine Agrees.of_exists fun rest hrest => Agrees.behind Meets.eatComma fun b => ?_
    cases b with
    | false => exact Agrees.refl _
    | true => exact (usedLibrary (fun name hname => hnames name (hrest.1 hname)) hrest.2).map

theorem programWithoutUnits (hs : s.Unitless t) :
    (Parser.program t .notFound scope s).Agrees (Cursor.Waits names)
      (Parser.program t t.load scope s) := by
  refine Agrees.behind (Yields.programHeading (Cursor.guard_waits names)) fun _ =>
    Agrees.of_known fun _ => ?_
  exact (usesLibraries hnames hs).before

end Agrees

end Parser

/-- A text that uses no unit of any file is read as by a loader that finds no unit. -/
theorem Toolchain.UsesNoUnit.parse {t : Toolchain} {unit source : String} (h : t.UsesNoUnit unit source) :
    (Group.assemble t.sources unit source).parse
        (Parser.program t t.load (Session.open_ t .program unit {}).1 (Session.open_ t .program unit {}).2) =
      (Group.assemble t.sources unit source).parse (Parser.program t .notFound
        (Session.open_ t .program unit {}).1 (Session.open_ t .program unit {}).2) := by
  have hwaits : (Cursor.ofGroup (Group.assemble t.sources unit source)).Waits
      (Item.usedNames false (Group.assemble t.sources unit source).items) := rfl
  apply Group.parse_congr
  exact (Parser.Agrees.programWithoutUnits h (Session.unitless_open t unit) _ hwaits).symm

end Pascal
