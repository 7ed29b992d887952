import Pascal.Library.Standard
import Pascal.Proofs.Parse.Declaration

/-!
# How a program and its units are read

Reading a program goes through a row of arenas, each an extension of the one before. What was read in
any of them has been built there.
-/

namespace Pascal

/-- What reading a program and its units leads to. -/
abbrev Arena.Leads (ranges : Bool) (libraries : List Library) : Arena → Arena → Prop :=
  Relation.ReflTransGen (Arena.Extends ranges libraries)

namespace Arena.Leads

variable {ranges : Bool} {libraries : List Library} {a a' : Arena}

theorem nested (h : a.Leads ranges libraries a') (hn : a.Nested) : a'.Nested := by
  induction h with
  | refl => exact hn
  | tail _ h ih => exact h.nested ih

theorem grows (h : a.Leads ranges libraries a') (hn : a.Nested) : a.Grows a' := by
  induction h with
  | refl => exact .refl a
  | tail h₁ h ih => exact ih.trans (h.grows (Leads.nested h₁ hn))

theorem headed (h : a.Leads ranges libraries a') (hn : a.Nested) (hh : a.Headed) : a'.Headed := by
  induction h with
  | refl => exact hh
  | tail h₁ h ih => exact h.headed (Leads.nested h₁ hn) ih

theorem lists (h : a.Leads ranges libraries a') (hn : a.Nested) (hl : a.Lists libraries) :
    a'.Lists libraries := by
  induction h with
  | refl => exact hl
  | tail h₁ h ih => exact h.lists (Leads.nested h₁ hn) ih

theorem of_declares (h : a.DeclaresAll ranges a') : a.Leads ranges libraries a' :=
  Relation.ReflTransGen.mono (fun _ _ h => Extends.declares h) _ _ h

end Arena.Leads

/-- The statements of a scope that were read in an arena on the way to another one. -/
def Stmt.Read (ranges : Bool) (libraries : List Library) (a' : Arena) (scope : Nat) (s : Stmt) :
    Prop :=
  ∃ a, Arena.Leads ranges libraries {} a ∧ Arena.Leads ranges libraries a a' ∧
    scope < a.scopes.size ∧ s.Built ranges { arena := a, scope }

theorem Stmt.Read.trans {ranges : Bool} {libraries : List Library} {a a' : Arena} {scope : Nat}
    {s : Stmt} (h : s.Read ranges libraries a scope) (ha : a.Leads ranges libraries a') :
    s.Read ranges libraries a' scope := by
  obtain ⟨a₀, h₀, h₁, hscope, hs⟩ := h
  exact ⟨a₀, h₀, h₁.trans ha, hscope, hs⟩

namespace Toolchain

/-- No array constructor in a source text holds a range. -/
def IsRangeFree (t : Toolchain) (name source : String) : Prop :=
  Item.areRangeFree false (Group.assemble t.sources name source).items

instance {t : Toolchain} {name source : String} : Decidable (t.IsRangeFree name source) :=
  inferInstanceAs (Decidable (_ = true))

/-- No array constructor in the text of a unit holds a range. -/
def UnitIsRangeFree (t : Toolchain) (name : String) : Prop :=
  ∀ source, t.unitSource name default = .ok source → t.IsRangeFree name source

theorem unitSource_eq_ok {t : Toolchain} {name source : String} {p : Position}
    (h : t.unitSource name p = .ok source) : t.unitSource name default = .ok source := by
  unfold unitSource at h ⊢
  dsimp only at h ⊢
  split at h <;> simp_all

end Toolchain

namespace Session

/-- Whether the units of a session allow ranges as `r` says. With `strict` it is known of the text being
read as well that it holds none. -/
def Allows (t : Toolchain) (strict : Prop) (s : Session) (r : Bool) : Prop :=
  r = false → strict ∧ ∀ u ∈ s.code, t.UnitIsRangeFree u.name

/-- What reading adds to a session. -/
structure Leads (t : Toolchain) (strict : Prop) (s s' : Session) : Prop where
  arena : ∀ r, s'.Allows t strict r → Arena.Leads r t.libraries s.arena s'.arena
  code : s.code <:+ s'.code
  fresh : ∀ n, s.arena.scopes.size ≤ n → n < s'.arena.scopes.size →
    (s'.arena.scope n).kind ≠ .program ∧
      ((s'.arena.scope n).kind = .unit → ∃ u ∈ s'.code, u.scope = n)

/-- What holds of a session at every point of reading. -/
structure Sound (t : Toolchain) (strict : Prop) (s : Session) : Prop where
  arena : ∀ r, s.Allows t strict r → Arena.Leads r t.libraries {} s.arena
  units : ∀ key scope, (key, .loaded scope) ∈ s.units →
    scope < s.arena.scopes.size ∧ (s.arena.scope scope).kind = .unit
  code : ∀ u ∈ s.code, u.scope < s.arena.scopes.size ∧ (s.arena.scope u.scope).kind = .unit ∧
    ∀ r, s.Allows t strict r → ∀ body, u.initialization = some body ∨ u.finalization = some body →
      body.Read r t.libraries s.arena u.scope

variable {t : Toolchain} {strict : Prop} {s s' s'' : Session}

theorem allows_true : s.Allows t strict true := fun h => by cases h

theorem Allows.of_suffix {r : Bool} (h : s'.Allows t strict r) (hs : s.code <:+ s'.code) :
    s.Allows t strict r :=
  fun hr => ⟨(h hr).1, fun u hu => (h hr).2 u (hs.mem hu)⟩

namespace Sound

theorem nested (h : s.Sound t strict) : s.arena.Nested := (h.arena true allows_true).nested .empty

/-- Only libraries of the toolchain are known. -/
theorem lists (h : s.Sound t strict) : s.arena.Lists t.libraries :=
  (h.arena true allows_true).lists .empty (fun _ hk => by simp at hk)

end Sound

namespace Leads

theorem grows (h : s.Leads t strict s') (hs : s.Sound t strict) : s.arena.Grows s'.arena :=
  (h.arena true allows_true).grows hs.nested

theorem refl (s : Session) : s.Leads t strict s where
  arena _ _ := .refl
  code := List.suffix_rfl
  fresh n hle hlt := absurd hlt (by omega)

theorem trans (h : s.Leads t strict s') (h' : s'.Leads t strict s'') (hs : s'.Sound t strict) :
    s.Leads t strict s'' where
  arena r hr := (h.arena r (hr.of_suffix h'.code)).trans (h'.arena r hr)
  code := h.code.trans h'.code
  fresh n hle hlt := by
    rcases Nat.lt_or_ge n s'.arena.scopes.size with hn | hn
    · obtain ⟨hp, hu⟩ := h.fresh n hle hn
      rw [(h'.grows hs).kind hn]
      refine ⟨hp, fun hk => ?_⟩
      obtain ⟨u, hu, he⟩ := hu hk
      exact ⟨u, h'.code.mem hu, he⟩
    · exact h'.fresh n hn hlt

/-- Where no unit is added, a session stays sound. -/
theorem sound (h : s.Leads t strict s') (hs : s.Sound t strict) (hunits : s'.units = s.units)
    (hcode : s'.code = s.code) : s'.Sound t strict where
  arena r hr := (hs.arena r (hr.of_suffix h.code)).trans (h.arena r hr)
  units key scope hu := by
    obtain ⟨hlt, hk⟩ := hs.units key scope (hunits ▸ hu)
    exact ⟨hlt.trans_le (h.grows hs).scopes, ((h.grows hs).kind hlt).trans hk⟩
  code u hu := by
    obtain ⟨hlt, hk, hbody⟩ := hs.code u (hcode ▸ hu)
    refine ⟨hlt.trans_le (h.grows hs).scopes, ((h.grows hs).kind hlt).trans hk, fun r hr b hb => ?_⟩
    exact (hbody r (hr.of_suffix h.code) b hb).trans (h.arena r hr)

end Leads

/-- A step of the arena that makes no scope. -/
theorem Leads.step {a : Arena} (h : ∀ r, Arena.Extends r t.libraries s.arena a)
    (hsize : a.scopes.size = s.arena.scopes.size) : s.Leads t strict { s with arena := a } where
  arena r _ := .single (h r)
  code := List.suffix_rfl
  fresh n hle hlt := absurd hlt (by simp only [hsize]; omega)

theorem library?_eq_some {name : String} {id : Nat} (h : s.library? t name = some (id, s')) :
    s' = s ∨ ∃ l ∈ t.libraries, s' = { s with arena := s.arena.withLibrary l } := by
  unfold library? at h
  split at h
  · cases h
    exact .inl rfl
  · obtain ⟨l, hl, h⟩ := Option.bind_eq_some_iff.mp h
    cases h
    exact .inr ⟨l, List.mem_of_find?_eq_some hl, rfl⟩

/-- A session that has gone on from a sound one without loading units, and is sound. -/
structure Goes (t : Toolchain) (strict : Prop) (s s' : Session) : Prop where
  leads : s.Leads t strict s'
  sound : s'.Sound t strict

namespace Goes

theorem refl (h : s.Sound t strict) : s.Goes t strict s := ⟨.refl s, h⟩

theorem trans (h : s.Goes t strict s') (h' : s'.Goes t strict s'') : s.Goes t strict s'' :=
  ⟨h.leads.trans h'.leads h.sound, h'.sound⟩

theorem step (hs : s.Sound t strict) {a : Arena}
    (h : ∀ r, Arena.Extends r t.libraries s.arena a)
    (hsize : a.scopes.size = s.arena.scopes.size) : s.Goes t strict { s with arena := a } :=
  have hl : s.Leads t strict { s with arena := a } := .step h hsize
  ⟨hl, hl.sound hs rfl rfl⟩

theorem library? (hs : s.Sound t strict) {name : String} {id : Nat}
    (h : s.library? t name = some (id, s')) : s.Goes t strict s' := by
  rcases library?_eq_some h with rfl | ⟨l, hl, rfl⟩
  · exact .refl hs
  · exact .step hs (fun _ => .library l hl) (congrArg Array.size (Arena.addsLibrary l).scopes)

theorem addLibrary (hs : s.Sound t strict) {scope id : Nat} :
    s.Goes t strict (s.addImport scope (.library id)) :=
  .step hs (fun _ => .importLibrary) (by simp [Arena.addImport])

theorem addUnit (hs : s.Sound t strict) {scope unit : Nat} (hlt : unit < s.arena.scopes.size)
    (hkind : (s.arena.scope unit).kind = .unit) :
    s.Goes t strict (s.addImport scope (.unit unit)) :=
  .step hs (fun _ => .importUnit hlt hkind) (by simp [Arena.addImport])

theorem importSystem (hs : s.Sound t strict) {scope : Nat} :
    s.Goes t strict (s.importSystem t scope) := by
  unfold Session.importSystem
  split
  · next id s' h =>
    have hl := Goes.library? hs h
    exact hl.trans (.addLibrary hl.sound)
  · exact .refl hs

/-- Declarations of a scope, where it is known whether their text holds ranges. -/
theorem declares (hs : s.Sound t strict) {a : Arena}
    (h : ∀ r, (r = false → strict) → s.arena.DeclaresAll r a) :
    s.Goes t strict { s with arena := a } := by
  have hl : s.Leads t strict { s with arena := a } := by
    refine ⟨fun r hr => .of_declares (h r fun hf => (hr hf).1), List.suffix_rfl, fun n hle hlt => ?_⟩
    obtain ⟨id, hk⟩ := ((h true (by simp)).kept hs.nested).scopes n hle hlt
    simp only
    rw [hk]
    simp
  exact ⟨hl, hl.sound hs rfl rfl⟩

end Goes

end Session

/-- Loads units soundly. -/
def UnitLoader.Loads (t : Toolchain) (load : UnitLoader) : Prop :=
  ∀ strict name pos (s : Session) scope s', s.Sound t strict → load name pos s = .ok (scope, s') →
    s.Goes t strict s' ∧ scope < s'.arena.scopes.size ∧ (s'.arena.scope scope).kind = .unit

namespace Cursor

/-- What is known of a cursor whose text holds no range where `strict` is so. -/
def Known (strict : Prop) (c : Cursor) : Prop := ∀ r, (r = false → strict) → c.Fair r

theorem known {strict : Prop} {g : Group} (h : strict → Item.areRangeFree false g.items) :
    (Cursor.ofGroup g).Known strict :=
  fun _ hr hf => h (hr hf)

end Cursor

namespace Parser

variable {t : Toolchain} {strict : Prop} {α : Type} {p : Parser α} {scope : Nat} {s : Session}

/-- What is read of fair cursors in each way is read in all ways that are known. -/
theorem Yields.known {Q : Bool → α → Prop}
    (h : ∀ r, (r = false → strict) → p.Yields (Cursor.Fair r) (Q r)) :
    p.Yields (Cursor.Known strict) (fun a => ∀ r, (r = false → strict) → Q r a) := by
  intro c a c' hc hr
  exact ⟨fun r hs => (h r hs (hc r hs) hr).1, fun r hs => (h r hs (hc r hs) hr).2⟩

private theorem passes {Q : α → Prop} (h : ∀ r, p.Yields (Cursor.Fair r) Q) :
    p.Yields (Cursor.Known strict) Q :=
  (Yields.known (Q := fun _ => Q) fun r _ => h r).mono fun a ha => ha true (by simp)

private theorem identifier_known : identifier.Yields (Cursor.Known strict) (fun _ => True) :=
  passes fun r => Yields.identifier (Cursor.guard_fair r)

private theorem eatSymbol_known {w : Symbol} :
    (eatSymbol w).Yields (Cursor.Known strict) (fun _ => True) :=
  passes fun r => Yields.eatSymbol (Cursor.guard_fair r)

private theorem expectSymbol_known {w : Symbol} :
    (expectSymbol w).Yields (Cursor.Known strict) (fun _ => True) :=
  passes fun r => Yields.expectSymbol (Cursor.guard_fair r)

private theorem eatUses_known : (eatKeyword .uses).Yields (Cursor.Known strict) (fun _ => True) :=
  passes fun r => Meets.eat (fun hc hk hw => ⟨trivial, hc.behind (by
    rw [hk]
    rintro ⟨⟩
    cases hw)⟩) fun hc => ⟨trivial, hc⟩

private theorem expectKeyword_known {w : Keyword} (hw : w ≠ .array ∧ w ≠ .uses) :
    (expectKeyword w).Yields (Cursor.Known strict) (fun _ => True) :=
  passes fun r => Yields.expectKeyword (Cursor.guard_fair r) hw

private theorem group_known {kind : GroupKind} :
    (group kind).Yields (Cursor.Known strict) (fun g => (Cursor.ofGroup g).Known strict) :=
  Yields.known fun r _ => Yields.group (Cursor.guard_fair r)

section Guarded

variable {ranges : Bool} {I : Cursor → Prop} (hI : Cursor.Guard ranges I)

include hI

theorem Yields.programHeading : Parser.programHeading.Yields I (fun _ => True) := by
  refine (Yields.eatKeyword hI (by simp)).bind fun b _ => ?_
  cases b with
  | false => exact .pure trivial
  | true =>
    refine (Yields.identifier hI).bind fun _ _ => (Yields.group? hI).bind fun _ _ => ?_
    exact Yields.expectSymbol hI

theorem Yields.unitPart {ctx : Context} {w : Keyword} (hw : w ≠ .array ∧ w ≠ .uses)
    {stop : Token.Kind → Bool} :
    (Parser.unitPart ctx w stop).Yields I (fun r => ∀ body, r = some body → body.Built ranges ctx) := by
  refine (Yields.eatKeyword hI hw).bind fun b _ => ?_
  cases b with
  | false => exact .pure (by simp)
  | true =>
    refine Yields.pos.bind fun p _ => ?_
    refine (Yields.statements hI (BuildsStmt.statement ranges ctx I hI)).bind fun ss hss => .pure ?_
    rintro body ⟨⟩
    exact .block hss

end Guarded

section Loading

variable {load : UnitLoader} (hload : load.Loads t)

include hload

theorem Yields.usedName (hs : s.Sound t strict) :
    (Parser.usedName t load scope s).Yields (Cursor.Known strict) (s.Goes t strict) := by
  refine identifier_known.bind fun (name, p) _ => ?_
  dsimp only
  split
  · next id s' h =>
    have hl := Session.Goes.library? hs h
    exact .pure (hl.trans (.addLibrary hl.sound))
  · refine Yields.check.bind fun (unit, s') h => .pure ?_
    obtain ⟨hl, hlt, hkind⟩ := hload strict name p s unit s' hs h
    exact hl.trans (.addUnit hl.sound hlt hkind)

theorem Yields.uses (hs : s.Sound t strict) :
    (Parser.uses t load scope s).Yields (Cursor.Known strict) (s.Goes t strict) := by
  refine eatUses_known.bind fun b _ => ?_
  cases b with
  | false => exact .pure (.refl hs)
  | true =>
    refine (Yields.usedName hload hs).bind fun s₁ h₁ => ?_
    refine (Yields.iterate (Q := s.Goes t strict) h₁ fun s₂ h₂ => ?_).bind fun s₃ h₃ =>
      expectSymbol_known.bind fun _ _ => .pure h₃
    refine eatSymbol_known.bind fun b _ => ?_
    cases b with
    | false => exact .pure (by simp)
    | true =>
      refine (Yields.usedName hload h₂.sound).map (f := some) ?_
      rintro s₃ h₃ s₄ ⟨⟩
      exact h₂.trans h₃

omit hload in
theorem Yields.declare (hs : s.Sound t strict) (hscope : scope < s.arena.scopes.size)
    {part : Section} :
    (Parser.declare scope part s).Yields (Cursor.Known strict) (s.Goes t strict) :=
  (Yields.known fun _ _ => Declares.declarations _ (Cursor.guard_fair _) s.arena hs.nested hscope).bind fun _ ha =>
    .pure (.declares hs ha)

/-- What is read of a whole program. -/
theorem Yields.program (hs : s.Sound t strict) (hscope : scope < s.arena.scopes.size) :
    (Parser.program t load scope s).Yields (Cursor.Known strict) (fun r => s.Goes t strict r.2 ∧
      ∀ ranges, (ranges = false → strict) → r.1.Built ranges { arena := r.2.arena, scope }) := by
  refine (passes fun r => Yields.programHeading (Cursor.guard_fair r)).bind fun _ _ => (Yields.uses hload hs).bind fun s₁ h₁ => ?_
  have hscope₁ := hscope.trans_le (h₁.leads.grows hs).scopes
  refine (Yields.declare h₁.sound hscope₁).bind fun s₂ h₂ => ?_
  refine group_known.bind fun g hg => ?_
  refine (Yields.known fun r hr => Yields.block (BuildsStmt.statement r _) (hg r hr)).bind ?_
  exact fun body hbody => expectSymbol_known.bind fun _ _ => Yields.done.bind fun _ _ =>
    .pure ⟨h₁.trans h₂, hbody⟩

omit hload in
private theorem unitPart_known {ctx : Context} {w : Keyword} (hw : w ≠ .array ∧ w ≠ .uses)
    {stop : Token.Kind → Bool} :
    (unitPart ctx w stop).Yields (Cursor.Known strict) (fun r =>
      ∀ ranges, (ranges = false → strict) → ∀ body, r = some body → body.Built ranges ctx) :=
  Yields.known fun r _ => Yields.unitPart (Cursor.guard_fair r) hw

/-- What is read between the name of a unit and its end. -/
theorem Yields.unitBody (hs : s.Sound t strict) (hscope : scope < s.arena.scopes.size) :
    (Parser.unitBody t load scope s).Yields (Cursor.Known strict) (fun r => s.Goes t strict r.2.2 ∧
      ∀ ranges, (ranges = false → strict) → ∀ body, r.1 = some body ∨ r.2.1 = some body →
        body.Built ranges { arena := r.2.2.arena, scope }) := by
  refine identifier_known.bind fun _ _ => expectSymbol_known.bind fun _ _ => ?_
  refine (expectKeyword_known (by simp)).bind fun _ _ => ?_
  refine (Yields.uses hload hs).bind fun s₁ h₁ => ?_
  have hscope₁ := hscope.trans_le (h₁.leads.grows hs).scopes
  refine (Yields.declare h₁.sound hscope₁).bind fun s₂ h₂ => ?_
  refine (expectKeyword_known (by simp)).bind fun _ _ => ?_
  refine (Yields.uses hload h₂.sound).bind fun s₃ h₃ => ?_
  have h₁₃ := h₁.trans (h₂.trans h₃)
  have hscope₃ := hscope.trans_le (h₁₃.leads.grows hs).scopes
  refine (Yields.declare h₃.sound hscope₃).bind fun s₄ h₄ => ?_
  refine (unitPart_known (by simp)).bind fun initialization hi => ?_
  refine (unitPart_known (by simp)).bind fun finalization hf => .pure ⟨h₁₃.trans h₄, ?_⟩
  rintro r hr body (hb | hb)
  · exact hi r hr body hb
  · exact hf r hr body hb

end Loading

theorem Yields.unitGroup :
    Parser.unitGroup.Yields (Cursor.Known strict) (fun g => (Cursor.ofGroup g).Known strict) :=
  group_known.bind fun _ hg => expectSymbol_known.bind fun _ _ => Yields.done.bind fun _ _ => .pure hg

end Parser

theorem Group.parse_eq_ok {α : Type} {g : Group} {p : Parser α} {a : α} (h : g.parse p = .ok a) :
    ∃ c, p (.ofGroup g) = .ok (a, c) := by
  obtain ⟨⟨b, c⟩, hp, h⟩ := bind_eq_ok.mp h
  dsimp only at h
  split at h
  · cases h
    exact ⟨c, hp⟩
  · cases h

namespace Session.Sound

variable {t : Toolchain} {strict strict' : Prop} {s : Session}

theorem mono (h : s.Sound t strict) (hs : strict' → strict) : s.Sound t strict' where
  arena r hr := h.arena r fun hf => ⟨hs (hr hf).1, (hr hf).2⟩
  units := h.units
  code u hu := by
    obtain ⟨hlt, hk, hb⟩ := h.code u hu
    exact ⟨hlt, hk, fun r hr => hb r fun hf => ⟨hs (hr hf).1, (hr hf).2⟩⟩

theorem mark (h : s.Sound t strict) {key : String} {state : UnitState}
    (hstate : ∀ scope, state = .loaded scope →
      scope < s.arena.scopes.size ∧ (s.arena.scope scope).kind = .unit) :
    (s.mark key state).Sound t strict where
  arena := h.arena
  units k scope hu := by
    rcases List.mem_cons.mp hu with hu | hu
    · cases hu
      exact hstate scope rfl
    · exact h.units k scope hu
  code := h.code

theorem push (h : s.Sound t strict) {kind : ScopeKind} {name : String}
    (hkind : kind = .program ∨ kind = .unit) :
    Sound t strict { s with arena := (s.arena.push kind name none).2 } := by
  have hg : s.arena.Grows (s.arena.push kind name none).2 := .push ..
  refine ⟨fun r hr => (h.arena r hr).tail (.scope hkind), fun key scope hu => ?_, fun u hu => ?_⟩
  · obtain ⟨hlt, hk⟩ := h.units key scope hu
    exact ⟨hlt.trans_le hg.scopes, (hg.kind hlt).trans hk⟩
  · obtain ⟨hlt, hk, hb⟩ := h.code u hu
    exact ⟨hlt.trans_le hg.scopes, (hg.kind hlt).trans hk, fun r hr body hbody =>
      (hb r hr body hbody).trans (.single (.scope hkind))⟩

end Session.Sound

namespace Toolchain

open Session

variable {t : Toolchain} {strict : Prop} {s s' : Session} {name source : String}

/-- The scope that is opened is the last one, and only libraries are imported into it. -/
theorem open_goes (hs : s.Sound t strict) {kind : ScopeKind} {name : String}
    (hkind : kind = .program ∨ kind = .unit) {scope : Nat}
    (h : s.open_ t kind name = (scope, s')) :
    scope = s.arena.scopes.size ∧
      Goes t strict { s with arena := (s.arena.push kind name none).2 } s' := by
  cases h
  exact ⟨rfl, .importSystem (hs.push hkind)⟩

/-- A unit that has been read in its scope joins the code of the session. -/
private theorem goes_addCode (hs : s.Sound t strict)
    (hsource : t.unitSource name default = .ok source) {s₂ : Session}
    (h : Goes t (strict ∧ t.IsRangeFree name source)
      { s with arena := (s.arena.push .unit name none).2 } s₂)
    {initialization finalization : Option Stmt}
    (hbody : ∀ r, (r = false → strict ∧ t.IsRangeFree name source) → ∀ body,
      initialization = some body ∨ finalization = some body →
        body.Built r { arena := s₂.arena, scope := s.arena.scopes.size }) :
    s.Goes t strict { s₂ with
      code := ⟨name, s.arena.scopes.size, initialization, finalization⟩ :: s₂.code } ∧
    s.arena.scopes.size < s₂.arena.scopes.size ∧
    (s₂.arena.scope s.arena.scopes.size).kind = .unit := by
  have hs' : s.Sound t (strict ∧ t.IsRangeFree name source) := hs.mono And.left
  have hg := h.leads.grows (hs'.push (.inr rfl))
  have hpush : s.arena.scopes.size < (s.arena.push .unit name none).2.scopes.size := by
    simp [Arena.push]
  have hlt := hpush.trans_le hg.scopes
  have hkind : (s₂.arena.scope s.arena.scopes.size).kind = .unit := by
    rw [hg.kind hpush, Arena.scope_push, if_pos rfl]
  -- what the session with the unit allows, the text of the unit and the session before it allow
  have hallows : ∀ {r}, Allows t strict { s₂ with
      code := ⟨name, s.arena.scopes.size, initialization, finalization⟩ :: s₂.code } r →
      s₂.Allows t (strict ∧ t.IsRangeFree name source) r := by
    intro r hr hf
    obtain ⟨h, hunits⟩ := hr hf
    exact ⟨⟨h, hunits _ List.mem_cons_self source hsource⟩,
      fun u hu => hunits u (List.mem_cons_of_mem _ hu)⟩
  refine ⟨⟨⟨?_, ?_, ?_⟩, ?_, ?_, ?_⟩, hlt, hkind⟩
  · exact fun r hr => (h.leads.arena r (hallows hr)).head (.scope (.inr rfl))
  · exact h.leads.code.trans (List.suffix_cons ..)
  · intro n hle hn
    rcases hle.eq_or_lt with rfl | hle
    · refine ⟨fun hp => ?_, fun _ => ⟨_, List.mem_cons_self, rfl⟩⟩
      rw [hkind] at hp
      cases hp
    · obtain ⟨hp, hu⟩ := h.leads.fresh n (by simp [Arena.push]; omega) hn
      refine ⟨hp, fun hk => ?_⟩
      obtain ⟨u, hu, he⟩ := hu hk
      exact ⟨u, List.mem_cons_of_mem _ hu, he⟩
  · exact fun r hr => h.sound.arena r (hallows hr)
  · exact h.sound.units
  · intro u hu
    rcases List.mem_cons.mp hu with rfl | hu
    · refine ⟨hlt, hkind, fun r hr body hb => ?_⟩
      refine ⟨_, h.sound.arena r (hallows hr), .refl, hlt, hbody r (fun hf => ?_) body hb⟩
      exact ((hallows hr) hf).1
    · obtain ⟨hlt, hk, hb⟩ := h.sound.code u hu
      exact ⟨hlt, hk, fun r hr => hb r (hallows hr)⟩

theorem compileUnit_eq_ok {load : UnitLoader} (hload : load.Loads t) {scope : Nat}
    (hs : s.Sound t strict) (hsource : t.unitSource name default = .ok source)
    (h : t.compileUnit load source name s = .ok (scope, s')) :
    s.Goes t strict s' ∧ scope < s'.arena.scopes.size ∧ (s'.arena.scope scope).kind = .unit := by
  have hs' : s.Sound t (strict ∧ t.IsRangeFree name source) := hs.mono And.left
  unfold compileUnit at h
  split at h
  next scope₁ s₁ hopen =>
  obtain ⟨rfl, h₁⟩ := open_goes hs' (.inr rfl) hopen
  have hlt₁ : s.arena.scopes.size < s₁.arena.scopes.size := by
    have hg := (h₁.leads.grows (hs'.push (.inr rfl))).scopes
    simp only [Arena.push, Array.size_push] at hg
    omega
  obtain ⟨c, hp⟩ := Group.parse_eq_ok h
  have hread : ∀ {p : Parser (Nat × Session)},
      p.Yields (Cursor.Known (strict ∧ t.IsRangeFree name source)) (fun r =>
        s.Goes t strict r.2 ∧ r.1 < r.2.arena.scopes.size ∧ (r.2.arena.scope r.1).kind = .unit) →
      p (.ofGroup (Group.assemble t.sources name source)) = .ok ((scope, s'), c) →
      s.Goes t strict s' ∧ scope < s'.arena.scopes.size ∧ (s'.arena.scope scope).kind = .unit :=
    fun hread hp => (hread (Cursor.known fun hr => hr.2) hp).1
  refine hread ?_ hp
  refine (Parser.Yields.unitGroup).bind fun g hg => ?_
  refine (Parser.Yields.inside hg (Parser.Yields.unitBody hload h₁.sound hlt₁)).bind ?_
  rintro ⟨initialization, finalization, s₂⟩ ⟨h₂, hbody⟩
  exact .pure (goes_addCode hs hsource (h₁.trans h₂) hbody)

theorem loadWithin_loads (t : Toolchain) (depth : Nat) : (t.loadWithin depth).Loads t := by
  induction depth with
  | zero => exact fun strict name pos s scope s' _ h => by cases h
  | succ depth ih =>
    intro strict name pos s scope s' hs h
    unfold loadWithin at h
    dsimp only at h
    split at h
    · next unit hu =>
      cases h
      obtain ⟨⟨key, state⟩, hfind, he⟩ := Option.map_eq_some_iff.mp hu
      cases he
      exact ⟨.refl hs, hs.units key scope (List.mem_of_find?_eq_some hfind)⟩
    · cases h
    · obtain ⟨source, hsource, h⟩ := bind_eq_ok.mp h
      obtain ⟨⟨unit, s₁⟩, hunit, h⟩ := bind_eq_ok.mp h
      cases h
      have hmark : (s.mark (Text.lower name) .loading).Sound t strict := hs.mark (by simp)
      obtain ⟨hgoes, hlt, hkind⟩ := compileUnit_eq_ok ih hmark (unitSource_eq_ok hsource) hunit
      refine ⟨⟨⟨hgoes.leads.arena, hgoes.leads.code, hgoes.leads.fresh⟩, hgoes.sound.mark ?_⟩, hlt, hkind⟩
      rintro scope ⟨⟩
      exact ⟨hlt, hkind⟩

end Toolchain

/-- How a program was read: the arenas on the way to its own, and where its statements were built. -/
structure Program.Elaborated (ranges : Bool) (libraries : List Library) (p : Program) : Prop where
  arena : Arena.Leads ranges libraries {} p.arena
  main : p.main < p.arena.scopes.size ∧ (p.arena.scope p.main).kind = .program
  body : p.body.Read ranges libraries p.arena p.main
  units : ∀ u ∈ p.units, u.scope < p.arena.scopes.size ∧ (p.arena.scope u.scope).kind = .unit ∧
    ∀ body, u.initialization = some body ∨ u.finalization = some body →
      body.Read ranges libraries p.arena u.scope
  globals : ∀ n < p.arena.scopes.size, ((p.arena.scope n).kind = .program → n = p.main) ∧
    ((p.arena.scope n).kind = .unit → ∃ u ∈ p.units, u.scope = n)
  bodies : ∀ id < p.arena.functions.size, ∃ body, (p.arena.function id).body = some body

/-- The body of a routine was read in the scope of the routine. -/
theorem Arena.Leads.body {ranges : Bool} {libraries : List Library} {a : Arena}
    (h : Arena.Leads ranges libraries {} a) {id : Nat} {body : Stmt}
    (hbody : (a.function id).body = some body) :
    id < a.functions.size ∧ body.Read ranges libraries a (a.function id).scope := by
  induction h with
  | refl => simp [Arena.function, default] at hbody
  | @tail a a' h₁ h ih =>
    have hn : a.Nested := Leads.nested h₁ .empty
    have hold : (a.function id).body = some body →
        id < a'.functions.size ∧ body.Read ranges libraries a' (a'.function id).scope := by
      intro hb
      obtain ⟨hlt, hread⟩ := ih hb
      have hg := h.grows hn
      rw [hg.ownScope hlt]
      exact ⟨hlt.trans_le hg.functions, hread.trans (.single h)⟩
    cases h with
    | scope => exact hold hbody
    | library l => rw [function_withLibrary] at hbody; exact hold hbody
    | importLibrary => exact hold hbody
    | importUnit => exact hold hbody
    | declares hd =>
      cases hd with
      | vars hs _ _ h =>
        rw [declareVariables_eq] at h
        rw [Arena.function, (declareEach_eq_ok hs h).functions] at hbody
        exact hold hbody
      | constant _ _ _ h =>
        obtain ⟨-, rfl⟩ := declare_eq_ok h
        exact hold hbody
      | type _ _ h =>
        obtain ⟨-, rfl⟩ := declare_eq_ok h
        exact hold hbody
      | header hs _ _ h h' =>
        have hh := declaresHeader hn hs h h'
        have hid : id < a'.functions.size := by
          by_contra hge
          simp [Arena.function, hge, default] at hbody
        rcases hh.new id hid with hlt | ⟨rfl, -, hnone⟩
        · rw [hh.old id hlt] at hbody
          exact hold hbody
        · rw [hnone] at hbody
          cases hbody
      | @body n s hlt hs =>
        rw [function_modifyFunction] at hbody
        split at hbody
        · next he =>
          obtain ⟨rfl, -⟩ := he
          cases hbody
          have hstep : Arena.Extends ranges libraries a
              (a.modifyFunction id fun f => { f with body := some body }) := .declares (.body hlt hs)
          have hg := hstep.grows hn
          rw [hg.ownScope hlt]
          exact ⟨hlt.trans_le hg.functions, a, h₁, .single hstep, (hn.own id hlt).1, hs⟩
        · exact hold hbody

theorem exists_ok_of_any {ε α : Type} {x : Except ε α} {P : α → Bool} (h : x.toOption.any P) :
    ∃ v, x = .ok v ∧ P v := by
  cases x with
  | error e => cases h
  | ok v => exact ⟨v, rfl, h⟩

namespace Toolchain

open Session

/-- Where array constructors hold no range in the text of a program and of its units, reading it needs
none. -/
theorem compilePlain_elaborated {t : Toolchain} {unit source : String} {p : Program}
    (h : t.compilePlain unit source = .ok p) {ranges : Bool}
    (hr : ranges = false → t.IsRangeFree unit source ∧ ∀ u ∈ p.units, t.UnitIsRangeFree u.name) :
    p.Elaborated ranges t.libraries := by
  have hempty : Sound t (t.IsRangeFree unit source) {} :=
    ⟨fun _ _ => .refl, fun _ _ h => by simp at h, fun _ h => by simp at h⟩
  unfold compilePlain at h
  split at h
  next main s₁ hopen =>
  obtain ⟨rfl, h₁⟩ := open_goes hempty (.inl rfl) hopen
  obtain ⟨⟨body, s₂⟩, hparse, h⟩ := bind_eq_ok.mp h
  dsimp only at h
  split at h
  · cases h
  · next hmissing =>
    cases h
    have hsize : (Arena.push {} .program unit none).2.scopes.size = 1 := by simp [Arena.push]
    have hlt₁ : 0 < s₁.arena.scopes.size := by
      have hg := (h₁.leads.grows (hempty.push (.inl rfl))).scopes
      simp only [hsize] at hg
      omega
    obtain ⟨c, hparse⟩ := Group.parse_eq_ok hparse
    obtain ⟨⟨h₂, hbody⟩, -⟩ := Parser.Yields.program (loadWithin_loads t _) h₁.sound hlt₁
      (Cursor.known id) hparse
    have hgoes := h₁.trans h₂
    have hg := hgoes.leads.grows (hempty.push (.inl rfl))
    have hallows : s₂.Allows t (t.IsRangeFree unit source) ranges := by
      intro hf
      obtain ⟨hmain, hunits⟩ := hr hf
      exact ⟨hmain, fun u hu => hunits u (List.mem_reverse.mpr hu)⟩
    have hmain : (s₂.arena.scope 0).kind = .program := by
      rw [hg.kind (by simp [hsize]), Arena.scope_push, if_pos (by simp)]
    have harena := hgoes.sound.arena ranges hallows
    refine ⟨harena, ⟨?_, hmain⟩, ?_, fun u hu => ?_, fun n hn => ?_, fun id hid => ?_⟩
    · exact hlt₁.trans_le (h₂.leads.grows h₁.sound).scopes
    · exact ⟨_, harena, .refl, hlt₁.trans_le (h₂.leads.grows h₁.sound).scopes,
        hbody ranges fun hf => (hallows hf).1⟩
    · obtain ⟨hlt, hk, hb⟩ := hgoes.sound.code u (List.mem_reverse.mp hu)
      exact ⟨hlt, hk, hb ranges hallows⟩
    · rcases Nat.eq_zero_or_pos n with rfl | hpos
      · refine ⟨fun _ => rfl, fun hk => ?_⟩
        rw [hmain] at hk
        cases hk
      · obtain ⟨hp, hu⟩ := hgoes.leads.fresh n (by simp only [hsize]; omega) hn
        refine ⟨fun h => absurd h hp, fun hk => ?_⟩
        obtain ⟨u, hu, he⟩ := hu hk
        exact ⟨u, List.mem_reverse.mpr hu, he⟩
    · have hmem : s₂.arena.function id ∈ s₂.arena.functions.toList := by
        simp [Arena.function, hid]
      have hnone : ¬(s₂.arena.function id).body.isNone := by
        intro hnone
        have hmem : s₂.arena.function id ∈ s₂.arena.missingBodies :=
          List.mem_filter.mpr ⟨hmem, hnone⟩
        rw [hmissing] at hmem
        cases hmem
      exact Option.ne_none_iff_exists'.mp (by simpa using hnone)

theorem folded_eq_ok {t : Toolchain} {p q : Program} :
    t.folded q = .ok p ↔ (t.folds → q.foldEnds) ∧ p = if t.folds then q.fold else q := by
  unfold folded Program.fold?
  cases t.folds <;> cases q.foldEnds <;> simp [eq_comm]

theorem compile_eq_ok {t : Toolchain} {unit source : String} {p : Program}
    (h : t.compile unit source = .ok p) :
    ∃ q, t.compilePlain unit source = .ok q ∧ p = if t.folds then q.fold else q := by
  obtain ⟨q, hq, h⟩ := bind_eq_ok.mp h
  exact ⟨q, hq, (folded_eq_ok.mp h).2⟩

theorem exists_of_isOk {α : Type} {r : Checked α} (h : r.isOk = true) : ∃ a, r = .ok a := by
  cases r with
  | ok a => exact ⟨a, rfl⟩
  | error e => cases h

/-- The toolchain of programs that consist of one text and use the standard libraries only. -/
def standard : Toolchain where
  sources := { disk := {}, directories := [] }
  libraries := Library.standard

end Toolchain

end Pascal
