import Pascal.Proofs.Program.Uses

/-!
# The order in which units are loaded

A unit joins the code when all units that it uses have joined it, and it cannot have joined before while
it is being loaded. What one name behind `uses` adds to a session is said once; the clauses, the units and
the program put it together.
-/

namespace Pascal

namespace Toolchain

/-- Units by their names, the last one first: no two have the same name, and each uses none but those
behind it. -/
def InOrder (t : Toolchain) : List String → Prop
  | [] => True
  | name :: names => Text.lower name ∉ names.map Text.lower ∧
      (∀ key ∈ t.usedKeys name, key ∈ names.map Text.lower) ∧ InOrder t names

/-- The units that some roots use at once or through the units that were loaded. Which file a unit is in
may depend on the letter case of its name where it was used first, so the names are those of loading. -/
inductive Reaches (t : Toolchain) (names roots : List String) : String → Prop where
  | root {key : String} (h : key ∈ roots) : Reaches t names roots key
  | step {name key : String} (hname : name ∈ names) (h : Reaches t names roots (Text.lower name))
      (hkey : key ∈ t.usedKeys name) : Reaches t names roots key

namespace Reaches

variable {t : Toolchain} {names names' roots roots' : List String} {key : String}

theorem mono (h : t.Reaches names roots key) (hnames : names ⊆ names') (hroots : roots ⊆ roots') :
    t.Reaches names' roots' key := by
  induction h with
  | root h => exact .root (hroots h)
  | step hname _ hkey ih => exact .step (hnames hname) ih hkey

/-- What a unit that is reached leads to is reached. -/
theorem through {name : String} (hname : name ∈ names) (hreached : t.Reaches names roots (Text.lower name))
    (h : t.Reaches names (t.usedKeys name) key) : t.Reaches names roots key := by
  induction h with
  | root h => exact .step hname hreached h
  | step hother _ hkey ih => exact .step hother ih hkey

end Reaches

end Toolchain

namespace Session

/-- The names of the units loaded so far, the last one first. -/
def names (s : Session) : List String := s.code.map (·.name)

@[simp] theorem unitState?_mark (s : Session) (key key' : String) (state : UnitState) :
    (s.mark key state).unitState? key' = if key = key' then some state else s.unitState? key' := by
  unfold unitState? mark
  rw [List.find?_cons]
  by_cases h : key = key'
  · simp [h]
  · rw [if_neg h, beq_false_of_ne h]

variable {t : Toolchain} {s s' s'' : Session} {roots roots' : List String}

/-- The units that count as loaded are those of the code, which is in order. -/
structure Settled (t : Toolchain) (s : Session) : Prop where
  sound : s.Sound t False
  loaded : ∀ key scope, s.unitState? key = some (.loaded scope) → key ∈ s.names.map Text.lower
  known : ∀ key ∈ s.names.map Text.lower, ∃ scope, s.unitState? key = some (.loaded scope)
  order : t.InOrder s.names

/-- What loading some units adds to a session: these and what they lead to, and nothing else. -/
structure Adds (t : Toolchain) (roots : List String) (s s' : Session) : Prop where
  loading : ∀ key, s'.unitState? key = some .loading ↔ s.unitState? key = some .loading
  names : s.names <:+ s'.names
  met : ∀ key ∈ roots, key ∈ s'.names.map Text.lower
  reached : ∀ name ∈ s'.names, name ∈ s.names ∨ t.Reaches s'.names roots (Text.lower name)

namespace Adds

theorem trans (h : s.Adds t roots s') (h' : s'.Adds t roots' s'') :
    s.Adds t (roots ++ roots') s'' where
  loading key := (h'.loading key).trans (h.loading key)
  names := h.names.trans h'.names
  met key hkey := by
    rcases List.mem_append.mp hkey with hkey | hkey
    · exact List.map_subset _ h'.names.subset (h.met key hkey)
    · exact h'.met key hkey
  reached name hname := by
    rcases h'.reached name hname with hname | hreached
    · rcases h.reached name hname with hname | hreached
      · exact .inl hname
      · exact .inr (hreached.mono h'.names.subset (List.subset_append_left ..))
    · exact .inr (hreached.mono (List.Subset.refl _) (List.subset_append_right ..))

end Adds

/-- A session that goes on without a unit more or less. -/
theorem Settled.goes (h : s.Settled t) (hgoes : s.Goes t False s') (hunits : s'.units = s.units)
    (hcode : s'.code = s.code) : s'.Settled t ∧ s.Adds t [] s' := by
  have hstate : s'.unitState? = s.unitState? := by
    funext key
    rw [unitState?, hunits, ← unitState?]
  have hnames : s'.names = s.names := by rw [Session.names, hcode, ← Session.names]
  have hsettled : s'.Settled t := by
    constructor
    · exact hgoes.sound
    · rw [hstate, hnames]
      exact h.loaded
    · rw [hstate, hnames]
      exact h.known
    · rw [hnames]
      exact h.order
  have hadds : s.Adds t [] s' := by
    constructor
    · simp [hstate]
    · exact hnames ▸ List.suffix_rfl
    · simp
    · intro name hname
      rw [hnames] at hname
      exact .inl hname
  exact ⟨hsettled, hadds⟩

/-- A unit that begins to be loaded is not in the code. -/
theorem Settled.begins (h : s.Settled t) {key : String} (hstate : s.unitState? key = none) :
    (s.mark key .loading).Settled t := by
  constructor
  · exact h.sound.mark (by simp)
  · intro key' scope hloaded
    rw [unitState?_mark] at hloaded
    split at hloaded
    · cases hloaded
    · exact h.loaded key' scope hloaded
  · intro key' hkey
    obtain ⟨scope, hloaded⟩ := h.known key' hkey
    have hne : key ≠ key' := by
      rintro rfl
      rw [hstate] at hloaded
      cases hloaded
    exact ⟨scope, by rw [unitState?_mark, if_neg hne, hloaded]⟩
  · exact h.order

/-- A unit joins the code behind those that were loaded while it was being loaded. -/
theorem Settled.joins {s₁ : Session} {unit : UnitCode} {scope : Nat} {key : String}
    (hkey : Text.lower unit.name = key) (hstate : s.unitState? key = none) (h₁ : s₁.Settled t)
    (hadds : (s.mark key .loading).Adds t (t.usedKeys unit.name) s₁)
    (hlast : s' = Session.mark { s₁ with code := unit :: s₁.code } key (.loaded scope))
    (hsound : s'.Sound t False) : s'.Settled t ∧ s.Adds t [key] s' := by
  have hnames : s'.names = unit.name :: s₁.names := by rw [hlast]; rfl
  have hstates : ∀ key', s'.unitState? key' =
      if key = key' then some (.loaded scope) else s₁.unitState? key' := by
    intro key'
    rw [hlast]
    exact unitState?_mark ..
  have hloading : s₁.unitState? key = some .loading := (hadds.loading key).mpr (by simp)
  have hnew : key ∉ s₁.names.map Text.lower := by
    intro hmem
    obtain ⟨scope', hloaded⟩ := h₁.known key hmem
    rw [hloading] at hloaded
    cases hloaded
  constructor
  · constructor
    · exact hsound
    · intro key' scope' hloaded
      rw [hstates] at hloaded
      rw [hnames, List.map_cons, hkey]
      split at hloaded
      · next he => exact he ▸ List.mem_cons_self
      · exact List.mem_cons_of_mem _ (h₁.loaded key' scope' hloaded)
    · intro key' hmem
      rw [hnames, List.map_cons, hkey] at hmem
      rw [hstates]
      by_cases he : key = key'
      · exact ⟨scope, if_pos he⟩
      · rw [if_neg he]
        exact h₁.known key' ((List.mem_cons.mp hmem).resolve_left (Ne.symm he))
    · rw [hnames]
      exact ⟨hkey ▸ hnew, hadds.met, h₁.order⟩
  · constructor
    · intro key'
      rw [hstates]
      by_cases he : key = key'
      · simp [← he, hstate]
      · rw [if_neg he, hadds.loading, unitState?_mark, if_neg he]
    · rw [hnames]
      exact hadds.names.trans (List.suffix_cons ..)
    · simp [hnames, hkey]
    · have hunit : unit.name ∈ s'.names := hnames ▸ List.mem_cons_self
      have hreached : t.Reaches s'.names [key] (Text.lower unit.name) := .root (by simp [hkey])
      intro name hname
      rw [hnames] at hname
      rcases List.mem_cons.mp hname with rfl | hname
      · exact .inr hreached
      · rcases hadds.reached name hname with hname | hother
        · exact .inl hname
        · have hother : t.Reaches s'.names (t.usedKeys unit.name) (Text.lower name) :=
            hother.mono (hnames ▸ List.subset_cons_self ..) (List.Subset.refl _)
          exact .inr (.through hunit hreached hother)

/-- On the way from one session to the other, of some names all but the rest were used. -/
structure Passes (t : Toolchain) (wanted rest : List String) (s s' : Session) : Prop where
  settled : s'.Settled t
  scopes : s.arena.scopes.size ≤ s'.arena.scopes.size
  adds : ∃ used, wanted = used ++ rest ∧ s.Adds t (t.unitKeys used) s'

namespace Passes

variable {wanted mid rest : List String}

theorem trans (h : s.Passes t wanted mid s') (h' : s'.Passes t mid rest s'') :
    s.Passes t wanted rest s'' where
  settled := h'.settled
  scopes := h.scopes.trans h'.scopes
  adds := by
    obtain ⟨used, rfl, hadds⟩ := h.adds
    obtain ⟨used', rfl, hadds'⟩ := h'.adds
    refine ⟨used ++ used', (List.append_assoc ..).symm, ?_⟩
    rw [t.unitKeys_append]
    exact hadds.trans hadds'

theorem goes (h : s.Settled t) (hgoes : s.Goes t False s') (hunits : s'.units = s.units)
    (hcode : s'.code = s.code) : s.Passes t wanted wanted s' where
  settled := (h.goes hgoes hunits hcode).1
  scopes := (hgoes.leads.grows h.sound).scopes
  adds := ⟨[], rfl, (h.goes hgoes hunits hcode).2⟩

theorem refl (h : s.Settled t) : s.Passes t wanted wanted s := goes h (.refl h.sound) rfl rfl

/-- All of the names were used. -/
theorem done (h : s.Passes t wanted [] s') : s.Adds t (t.unitKeys wanted) s' := by
  obtain ⟨used, rfl, hadds⟩ := h.adds
  rwa [List.append_nil]

end Passes

end Session

/-- Loads units in order. -/
def UnitLoader.Orders (t : Toolchain) (load : UnitLoader) : Prop :=
  ∀ name pos (s : Session) scope s', s.Settled t → load name pos s = .ok (scope, s') →
    s'.Settled t ∧ s.Adds t [Text.lower name] s'

namespace Parser

open Session

variable {t : Toolchain} {load : UnitLoader} {scope : Nat} {s : Session} {names : List String}

/-- The word `uses` opens a clause. -/
theorem Meets.eatUses : (eatKeyword .uses).Meets (Cursor.Waits names)
    (fun b c => if b then c.InClause names else c.Waits names) := by
  refine Meets.eat (fun {c k} hc hk hword => ?_) fun hc => hc
  rw [Token.Kind.isKeyword_iff.mp hword] at hk
  exact hc.uses hk

/-- A comma leaves the clause open. -/
theorem Meets.eatComma : (eatSymbol .comma).Meets (Cursor.InClause names)
    (fun _ c => c.InClause names) := by
  refine Meets.eat (fun {c k} hc hk hsign => ?_) fun hc => hc
  rw [Token.Kind.isSymbol_iff.mp hsign] at hk
  exact hc.comma hk

/-- A semicolon closes the clause. -/
theorem Meets.expectSemicolon : (expectSymbol .semicolon).Meets (Cursor.InClause names)
    (fun _ c => c.Waits names) := by
  have heat : (eatSymbol .semicolon).Meets (Cursor.InClause names)
      (fun b c => b = true → c.Waits names) := by
    refine Meets.eat (fun {c k} hc hk hsign _ => ?_) fun _ h => by cases h
    rw [Token.Kind.isSymbol_iff.mp hsign] at hk
    exact hc.semicolon hk
  refine heat.bind fun b => ?_
  cases b with
  | false => exact fun _ _ _ _ h => by cases h
  | true => exact Meets.pure fun _ hc => hc rfl

/-- The next name of a clause. -/
theorem Meets.clauseName : Parser.identifier.Meets (Cursor.InClause names)
    (fun r c => ∃ rest, names = r.1 :: rest ∧ c.InClause rest) :=
  Meets.identifier fun hc hk _ => Cursor.InClause.identifier hc hk

section Loading

variable (hload : load.Loads t) (horders : load.Orders t)

include hload horders

/-- One name of a clause is used. -/
theorem Meets.usedName (hs : s.Settled t) :
    (Parser.usedName t load scope s).Meets (Cursor.InClause names)
      (fun s' c => ∃ rest, c.InClause rest ∧ s.Passes t names rest s') := by
  refine Meets.clauseName.bind fun found => ?_
  obtain ⟨name, p⟩ := found
  dsimp only
  have hlibrary := isSome_library? hs.sound name
  split
  · next id s₁ h =>
    rw [h] at hlibrary
    have hkeys : t.unitKeys [name] = [] := by simp [Toolchain.unitKeys, ← hlibrary]
    have hgoes := Goes.library? hs.sound h
    have hsame : s₁.units = s.units ∧ s₁.code = s.code := by
      rcases library?_eq_some h with rfl | ⟨l, -, rfl⟩ <;> exact ⟨rfl, rfl⟩
    have hpasses : ∀ rest, s.Passes t (name :: rest) rest (s₁.addImport scope (.library id)) := by
      intro rest
      have hall : s.Goes t False (s₁.addImport scope (.library id)) :=
        hgoes.trans (.addLibrary hgoes.sound)
      obtain ⟨hsettled, hadds⟩ := hs.goes hall hsame.1 hsame.2
      refine ⟨hsettled, (hall.leads.grows hs.sound).scopes, [name], rfl, ?_⟩
      rw [hkeys]
      exact hadds
    refine Meets.pure fun c hc => ?_
    obtain ⟨rest, rfl, hc⟩ := hc
    exact ⟨rest, hc, hpasses rest⟩
  · next h =>
    rw [h] at hlibrary
    have hkeys : t.unitKeys [name] = [Text.lower name] := by simp [Toolchain.unitKeys, ← hlibrary]
    have hchecked : (check (load name p s)).Yields
        (fun c => ∃ rest, names = name :: rest ∧ c.InClause rest) (load name p s = .ok ·) :=
      Yields.check
    refine Meets.bind hchecked fun loaded => Meets.pure fun c hc => ?_
    obtain ⟨unit, s₁⟩ := loaded
    obtain ⟨hr, rest, rfl, hc⟩ := hc
    obtain ⟨hgoes, hlt, hkind⟩ := hload False name p s unit s₁ hs.sound hr
    obtain ⟨hsettled, hadds⟩ := horders name p s unit s₁ hs hr
    have himport : s₁.Goes t False (s₁.addImport scope (.unit unit)) :=
      .addUnit hsettled.sound hlt hkind
    obtain ⟨hsettled', hadds'⟩ := hsettled.goes himport rfl rfl
    have hscopes := ((hgoes.trans himport).leads.grows hs.sound).scopes
    refine ⟨rest, hc, hsettled', hscopes, [name], rfl, ?_⟩
    rw [hkeys]
    exact hadds.trans hadds'

/-- Behind a comma there is one more name. -/
theorem Meets.nextName (s s₁ : Session) : (do
      if !(← eatSymbol .comma) then return none
      some <$> Parser.usedName t load scope s₁ : Parser (Option Session)).Meets
    (fun c => ∃ rest, c.InClause rest ∧ s.Passes t names rest s₁)
    (fun r c => ∃ rest, c.InClause rest ∧ s.Passes t names rest (r.getD s₁)) := by
  refine Meets.of_exists fun rest hpasses => Meets.eatComma.bind fun b => ?_
  cases b with
  | false => exact Meets.pure fun c hc => ⟨rest, hc, hpasses⟩
  | true =>
    refine (Meets.usedName hload horders hpasses.settled).map fun s₂ c hc => ?_
    obtain ⟨rest', hc, hpasses'⟩ := hc
    exact ⟨rest', hc, hpasses.trans hpasses'⟩

/-- The names of a clause are used, if there is one. -/
theorem Meets.uses (hs : s.Settled t) :
    (Parser.uses t load scope s).Meets (Cursor.Waits names)
      (fun s' c => ∃ rest, c.Waits rest ∧ s.Passes t names rest s') := by
  refine Meets.eatUses.bind fun b => ?_
  cases b with
  | false => exact Meets.pure fun c hc => ⟨names, hc, .refl hs⟩
  | true =>
    refine (Meets.usedName hload horders hs).bind fun s₁ => ?_
    refine (Meets.iterate (Meets.nextName hload horders s) s₁).bind fun s₂ => Meets.of_exists fun rest hpasses => ?_
    exact Meets.expectSemicolon.bind fun _ => Meets.pure fun c hc => ⟨rest, hc, hpasses⟩

omit hload horders in
/-- Declarations use no names. -/
theorem Meets.declare (hs : s.Settled t) (hscope : scope < s.arena.scopes.size) {part : Section} :
    (Parser.declare scope part s).Meets (Cursor.Waits names)
      (fun s' c => c.Waits names ∧ s.Passes t names names s') := by
  have hread : (declarations scope part s.arena).Yields (Cursor.Waits names)
      (Arena.DeclaresAll true s.arena) :=
    Declares.declarations _ (Cursor.guard_waits names) s.arena hs.sound.nested hscope
  refine Meets.bind hread fun a => Meets.pure fun c hc => ?_
  obtain ⟨ha, hc⟩ := hc
  have hgoes : s.Goes t False { s with arena := a } := by
    apply Goes.declares hs.sound
    intro r hr
    cases r with
    | false => exact absurd rfl hr
    | true => exact ha
  exact ⟨hc, .goes hs hgoes rfl rfl⟩

/-- A whole program uses all names of its clauses. -/
theorem Meets.program (hs : s.Settled t) (hscope : scope < s.arena.scopes.size) :
    (Parser.program t load scope s).Meets (Cursor.Waits names)
      (fun r _ => s.Passes t names [] r.2) := by
  refine (Yields.programHeading (Cursor.guard_waits names)).bind_meets fun _ _ => ?_
  refine (Meets.uses hload horders hs).bind fun s₁ => Meets.of_exists fun rest h₁ => ?_
  have hguard := Cursor.guard_waits rest
  refine (Meets.declare h₁.settled (hscope.trans_le h₁.scopes)).bind fun s₂ => Meets.of_and fun h₂ => ?_
  refine (Yields.group hguard).bind_meets fun g hg => ?_
  refine (Yields.block (BuildsStmt.statement true _) hg).bind_meets fun body _ => ?_
  refine (Yields.expectSymbol hguard).bind_meets fun _ _ => Meets.done.bind fun _ => ?_
  refine Meets.pure fun c hc => ?_
  obtain ⟨hwaits, hnil⟩ := hc
  rw [Cursor.Waits, hnil] at hwaits
  cases hwaits
  exact h₁.trans h₂

/-- The clauses of a unit use their names in order. -/
theorem Meets.unitBody (hs : s.Settled t) (hscope : scope < s.arena.scopes.size) :
    (Parser.unitBody t load scope s).Meets (Cursor.Waits names)
      (fun r c => ∃ rest, c.Waits rest ∧ s.Passes t names rest r.2.2) := by
  have hguard := Cursor.guard_waits names
  refine (Yields.identifier hguard).bind_meets fun _ _ => ?_
  refine (Yields.expectSymbol hguard).bind_meets fun _ _ => ?_
  refine (Yields.expectKeyword hguard (by simp)).bind_meets fun _ _ => ?_
  refine (Meets.uses hload horders hs).bind fun s₁ => Meets.of_exists fun mid h₁ => ?_
  have hscope₁ := hscope.trans_le h₁.scopes
  refine (Meets.declare h₁.settled hscope₁).bind fun s₂ => Meets.of_and fun h₂ => ?_
  refine (Yields.expectKeyword (Cursor.guard_waits mid) (by simp)).bind_meets fun _ _ => ?_
  refine (Meets.uses hload horders h₂.settled).bind fun s₃ => Meets.of_exists fun rest h₃ => ?_
  have hscope₃ := hscope₁.trans_le (h₂.scopes.trans h₃.scopes)
  refine (Meets.declare h₃.settled hscope₃).bind fun s₄ => Meets.of_and fun h₄ => ?_
  have hlast := Cursor.guard_waits rest
  refine (Yields.unitPart hlast (by simp)).bind_meets fun initialization _ => ?_
  refine (Yields.unitPart hlast (by simp)).bind_meets fun finalization _ => ?_
  exact Meets.pure fun c hc => ⟨rest, hc, h₁.trans (h₂.trans (h₃.trans h₄))⟩

end Loading

/-- The group of a unit holds what stands in the unit. -/
theorem Meets.unitGroup {whole : Group} :
    Parser.unitGroup.Meets (· = .ofGroup whole) (fun g _ => g.items = whole.unitItems) := by
  have hgroup : (Parser.group .unit).Meets (· = .ofGroup whole)
      (fun g _ => g.items = whole.unitItems) := by
    intro c g c' hc h
    obtain ⟨c₀, rest, rfl, hitems, -⟩ := Meets.group (P := (· = .ofGroup whole)) hc h
    have hwhole : whole.items = .group .unit g.opened g.closed g.items :: rest := hitems
    rw [Group.unitItems, hwhole]
  have hguard : Cursor.Guard true fun _ => True := Cursor.guard_true fun _ _ => trivial
  refine hgroup.bind fun g => Meets.of_prop fun hg => ?_
  refine (Yields.expectSymbol hguard).bind_meets fun _ _ => Meets.done.bind fun _ => ?_
  exact Meets.pure fun _ _ => hg

end Parser

theorem Session.importSystem_same (t : Toolchain) (scope : Nat) (s : Session) :
    (s.importSystem t scope).units = s.units ∧ (s.importSystem t scope).code = s.code := by
  unfold Session.importSystem
  split
  · next id s' h =>
    rcases Session.library?_eq_some h with rfl | ⟨l, -, rfl⟩ <;> exact ⟨rfl, rfl⟩
  · exact ⟨rfl, rfl⟩

namespace Toolchain

open Session

variable {t : Toolchain} {s s' : Session} {name source : String}

/-- A new scope makes no difference to the units. -/
theorem open_settled (name : String) (hs : s.Settled t) {kind : ScopeKind}
    (hkind : kind = .program ∨ kind = .unit) :
    (s.open_ t kind name).2.Settled t ∧ s.Adds t [] (s.open_ t kind name).2 ∧
      (s.open_ t kind name).1 < (s.open_ t kind name).2.arena.scopes.size := by
  have hpush : Settled t { s with arena := (s.arena.push kind name none).2 } :=
    ⟨hs.sound.push hkind, hs.loaded, hs.known, hs.order⟩
  have hopen : s.open_ t kind name = ((s.open_ t kind name).1, (s.open_ t kind name).2) := rfl
  obtain ⟨hscope, hgoes⟩ := open_goes hs.sound hkind hopen
  obtain ⟨hunits, hcode⟩ := importSystem_same t s.arena.scopes.size
    { s with arena := (s.arena.push kind name none).2 }
  obtain ⟨hsettled, hadds⟩ := hpush.goes hgoes hunits hcode
  refine ⟨hsettled, ⟨hadds.loading, hadds.names, hadds.met, hadds.reached⟩, ?_⟩
  have hsize : s.arena.scopes.size < (s.arena.push kind name none).2.scopes.size := by
    simp [Arena.push]
  exact hsize.trans_le (hgoes.leads.grows hpush.sound).scopes

/-- A unit that is compiled joins the code behind all units that it uses. -/
theorem compileUnit_adds {load : UnitLoader} (hload : load.Loads t) (horders : load.Orders t)
    (hs : s.Settled t) (hsource : t.unitSource name default = .ok source) {scope : Nat}
    (h : t.compileUnit load source name s = .ok (scope, s')) :
    ∃ (s₁ : Session) (unit : UnitCode), s₁.Settled t ∧ s.Adds t (t.usedKeys name) s₁ ∧
      unit.name = name ∧ s' = { s₁ with code := unit :: s₁.code } := by
  obtain ⟨hsettled, hadds, hscope⟩ := open_settled name hs (.inr rfl)
  obtain ⟨c, hp⟩ := Group.parse_eq_ok h
  have hkeys : t.usedKeys name =
      t.unitKeys (Item.usedNames false (Group.assemble t.sources name source).unitItems) := by
    rw [usedKeys, hsource]
  rw [hkeys]
  generalize Group.assemble t.sources name source = whole at hp ⊢
  -- what is read is stated of any reader, so that the goal does not repeat this one
  have hread : ∀ {p : Parser (Nat × Session)}, p.Meets (· = .ofGroup whole) (fun r _ =>
        ∃ (s₁ : Session) (unit : UnitCode), s₁.Settled t ∧
          s.Adds t (t.unitKeys (Item.usedNames false whole.unitItems)) s₁ ∧
          unit.name = name ∧ r.2 = { s₁ with code := unit :: s₁.code }) →
      p (.ofGroup whole) = .ok ((scope, s'), c) →
      ∃ (s₁ : Session) (unit : UnitCode), s₁.Settled t ∧
        s.Adds t (t.unitKeys (Item.usedNames false whole.unitItems)) s₁ ∧
        unit.name = name ∧ s' = { s₁ with code := unit :: s₁.code } :=
    fun hmeets hp => hmeets rfl hp
  refine hread ?_ hp
  refine Parser.Meets.unitGroup.bind fun g => Parser.Meets.of_prop fun hg => ?_
  have hwaits : (Cursor.ofGroup g).Waits (Item.usedNames false whole.unitItems) := by
    rw [Cursor.Waits, ← hg]
    rfl
  refine (Parser.Meets.inside hwaits (Parser.Meets.unitBody hload horders hsettled hscope)).bind
    fun body => ?_
  obtain ⟨initialization, finalization, s₁⟩ := body
  refine Parser.Meets.pure fun c hc => ?_
  obtain ⟨-, c', ⟨rest, hrest, hpasses⟩, hnil⟩ := hc
  rw [Cursor.Waits, hnil] at hrest
  cases hrest
  exact ⟨s₁, _, hpasses.settled, hadds.trans hpasses.done, rfl, rfl⟩

/-- A unit is loaded once, behind all units that it uses. -/
theorem loadWithin_orders (t : Toolchain) (depth : Nat) : (t.loadWithin depth).Orders t := by
  induction depth with
  | zero => exact fun name pos s scope s' _ h => by cases h
  | succ depth ih =>
    intro name pos s scope s' hs h
    have hsound := (loadWithin_loads t (depth + 1) False name pos s scope s' hs.sound h).1.sound
    unfold loadWithin at h
    dsimp only at h
    split at h
    · next unit hstate =>
      cases h
      refine ⟨hs, fun key => Iff.rfl, List.suffix_rfl, ?_, fun _ h => .inl h⟩
      intro key hkey
      cases List.mem_singleton.mp hkey
      exact hs.loaded _ _ hstate
    · cases h
    · next hstate =>
      obtain ⟨source, hsource, h⟩ := bind_eq_ok.mp h
      obtain ⟨⟨unit, s₁⟩, hunit, h⟩ := bind_eq_ok.mp h
      cases h
      obtain ⟨s₂, code, h₂, hadds, hname, hs₁⟩ := compileUnit_adds (loadWithin_loads t depth) ih
        (hs.begins hstate) (unitSource_eq_ok hsource) hunit
      subst hname hs₁
      exact Settled.joins rfl hstate h₂ hadds rfl hsound

end Toolchain

end Pascal
