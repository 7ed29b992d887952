import Pascal.Proofs.Scope.Grows
import Pascal.Proofs.Scope.Tables

/-!
# Tables mirror declarations

A table reads declarations when it has under each name what the name is declared as, if that is of the
kind of the table. Declaring a name in both keeps this, and so does adding a routine to a name. A scope
whose tables read some declarations has each of its names in one table, and its variables under their
names.
-/

namespace Pascal

namespace Entity

/-- The kind of a declaration in tables. -/
def tabled : Entity → Tabled.Kind
  | routines _ => .routine
  | constant _ => .constant
  | var _ => .var
  | type _ => .type

theorem describe_tabled (e : Entity) : e.tabled.describe = e.kind := by cases e <;> rfl

def callees? : Entity → Option (List Callee)
  | routines ids => some (ids.map .user)
  | _ => none

def constant? : Entity → Option Constant
  | constant c => some c
  | _ => none

def var? : Entity → Option Variable
  | var v => some v
  | _ => none

def type? : Entity → Option Ty
  | type ty => some ty
  | _ => none

@[simp] theorem var?_eq_some {e : Entity} {v : Variable} : e.var? = some v ↔ e = .var v := by
  cases e <;> simp [var?]

end Entity

namespace Scope

variable {c : Scope} {key : String}

theorem vars_eq_filterMap (c : Scope) : c.vars = c.declared.filterMap fun d => d.entity.var? := rfl

/-- Adding to the routines of a name makes no variables. -/
theorem vars_setRoutines (h : (c.declared.map (·.name)).Nodup) {ids : List Nat} (ids' : List Nat)
    (hkey : c.entity? key = some (.routines ids)) : (c.setRoutines key ids').vars = c.vars := by
  rw [vars_eq_filterMap, vars_eq_filterMap, setRoutines, List.filterMap_map]
  refine List.filterMap_congr fun d hd => ?_
  by_cases hname : d.name = key
  · have hentity : d.entity = .routines ids := by
      rw [← hname, entity?, find?_of_mem h hd] at hkey
      exact Option.some.inj hkey
    simp [hname, hentity, Entity.var?]
  · simp [hname]

end Scope

namespace Tabled

namespace Table

variable {α : Type} {t : Table α} {read : Entity → Option α} {c : Pascal.Scope}

/-- A table has under each name what can be read of its declaration. -/
def Reads (t : Table α) (read : Entity → Option α) (c : Pascal.Scope) : Prop :=
  ∀ key, t key = (c.entity? key).bind read

theorem Reads.insert (h : t.Reads read c) {key : String} {pos : Position} {e : Entity}
    (hkey : c.find? key = none) {x : α} (hx : read e = some x) :
    (t.insert key x).Reads read (c.add ⟨key, pos, e⟩) := by
  intro k
  rw [Pascal.Scope.entity?_add hkey, insert_apply, h k]
  split
  · rw [Option.bind_some, hx]
  · rfl

/-- A declaration of another kind. -/
theorem Reads.add (h : t.Reads read c) {d : Declaration} (hd : c.find? d.name = none)
    (hnone : read d.entity = none) : t.Reads read (c.add d) := by
  intro key
  rw [Pascal.Scope.entity?_add hd, h key]
  split
  · next hk =>
    rw [hk, Pascal.Scope.entity?, hd, Option.bind_some, hnone]
    rfl
  · rfl

theorem Reads.setRoutines (h : t.Reads read c) (hnone : ∀ ids, read (.routines ids) = none)
    {name : String} {ids : List Nat} (hname : c.entity? name = some (.routines ids))
    (ids' : List Nat) : t.Reads read (c.setRoutines name ids') := by
  intro key
  rw [Pascal.Scope.entity?_setRoutines, h key]
  split
  · next hk => simp [hk, hname, hnone]
  · rfl

/-- One more routine of a name. -/
theorem Reads.append {t : Table (List Callee)} (h : t.Reads Entity.callees? c) {name : String}
    {ids : List Nat} (hname : c.entity? name = some (.routines ids)) (id : Nat) :
    (t.append name (.user id)).Reads Entity.callees? (c.setRoutines name (ids ++ [id])) := by
  intro key
  rw [Pascal.Scope.entity?_setRoutines, Table.append, insert_apply, h name, h key, hname]
  split
  · next hk => simp [hk, hname, Entity.callees?]
  · rfl

end Table

namespace Scope

/-- The scope with a name claimed. -/
def claimed (s : Scope) (key : String) (kind : Kind) (pos : Position) : Scope :=
  { s with declared := s.declared.insert key (kind, pos) }

/-- The scope with a declaration in the table of its kind. The table of all names is not changed. -/
def store (s : Scope) (key : String) : Entity → Scope
  | .var v => { s with places := s.places.insert key s.vars.length, vars := s.vars ++ [v] }
  | .constant c => { s with constants := s.constants.insert key c }
  | .type ty => { s with types := s.types.insert key ty }
  | .routines ids => { s with routines := s.routines.insert key (ids.map .user) }

/-- A name is in at most one of the tables, which is the one that it was declared for, and a variable is
found under its name. -/
structure Sound (s : Scope) : Prop where
  has_iff : ∀ kind key, s.has kind key ↔ ∃ pos, s.declared key = some (kind, pos)
  apart : ∀ kind kind' key, s.has kind key → s.has kind' key → kind = kind'
  placed : ∀ key, s.has .var key ↔ (s.placed key).isSome
  distinct : (s.vars.map fun v => Text.lower v.name).Nodup
  var?_iff : ∀ name v, s.var? name = some v ↔ v ∈ s.vars ∧ Text.lower v.name = Text.lower name

/-- The tables of a scope say what the declarations of another one say. -/
structure Mirrors (s : Scope) (c : Pascal.Scope) : Prop where
  kind : s.kind = c.kind
  name : s.name = c.name
  parent : s.parent = c.parent
  imports : s.imports = c.imports
  declared : ∀ key, s.declared key = (c.find? key).map fun d => (d.entity.tabled, d.pos)
  routines : s.routines.Reads Entity.callees? c
  constants : s.constants.Reads Entity.constant? c
  types : s.types.Reads Entity.type? c
  vars : s.vars = c.vars
  placed : Table.Reads s.placed Entity.var? c
  places : ∀ key i, s.places key = some i → i < s.vars.length
  distinct : (c.declared.map (·.name)).Nodup
  named : ∀ key v, c.entity? key = some (.var v) → Text.lower v.name = key

namespace Mirrors

variable {s : Scope} {c : Pascal.Scope} {key : String}

theorem empty (kind : ScopeKind) (name : String) (parent : Option Nat) :
    Mirrors { kind, name, parent } { kind, name, parent } where
  kind := rfl
  name := rfl
  parent := rfl
  imports := rfl
  declared _ := rfl
  routines _ := rfl
  constants _ := rfl
  types _ := rfl
  vars := rfl
  placed _ := rfl
  places _ _ h := by cases h
  distinct := List.nodup_nil
  named _ _ h := by cases h

/-- One more variable does not move the ones before it. -/
theorem placed_append (h : s.Mirrors c) (v : Variable) (key : String) :
    ((s.places key).bind fun i => (s.vars ++ [v])[i]?) = s.placed key := by
  unfold Scope.placed
  cases hi : s.places key with
  | none => rfl
  | some i => exact List.getElem?_append_left (h.places key i hi)

/-- One more name, claimed and stored. -/
theorem add (h : s.Mirrors c) (pos : Position) {e : Entity} (hnew : c.find? key = none)
    (hname : ∀ v, e = .var v → Text.lower v.name = key) :
    ((s.claimed key e.tabled pos).store key e).Mirrors (c.add ⟨key, pos, e⟩) where
  kind := by cases e <;> exact h.kind
  name := by cases e <;> exact h.name
  parent := by cases e <;> exact h.parent
  imports := by cases e <;> exact h.imports
  declared k := by
    have hclaimed : ((s.claimed key e.tabled pos).store key e).declared =
        s.declared.insert key (e.tabled, pos) := by cases e <;> rfl
    rw [hclaimed, Pascal.Scope.find?_add hnew, Table.insert_apply, h.declared]
    split <;> rfl
  routines := by
    cases e with
    | routines ids => exact h.routines.insert hnew rfl
    | constant _ | var _ | type _ => exact h.routines.add hnew rfl
  constants := by
    cases e with
    | constant x => exact h.constants.insert hnew rfl
    | routines _ | var _ | type _ => exact h.constants.add hnew rfl
  types := by
    cases e with
    | type ty => exact h.types.insert hnew rfl
    | routines _ | constant _ | var _ => exact h.types.add hnew rfl
  vars := by
    rw [Pascal.Scope.vars_eq_filterMap, Pascal.Scope.add, List.filterMap_append,
      ← Pascal.Scope.vars_eq_filterMap, ← h.vars]
    cases e <;> simp [store, claimed, Entity.var?]
  placed := by
    cases e with
    | var v =>
      have hplaced : ((s.claimed key .var pos).store key (.var v)).placed =
          Table.insert s.placed key v := by
        funext k
        rw [Table.insert_apply, ← h.placed_append v k]
        simp only [Scope.placed, store, claimed, Table.insert_apply]
        by_cases hk : k = key <;> simp [hk]
      rw [Entity.tabled, hplaced]
      exact h.placed.insert hnew rfl
    | routines _ | constant _ | type _ => exact h.placed.add hnew rfl
  places k i hi := by
    cases e with
    | var v =>
      simp only [store, claimed, Table.insert_apply, List.length_append, List.length_singleton] at hi ⊢
      split at hi
      · cases hi
        exact Nat.lt_succ_self _
      · exact (h.places k i hi).trans (Nat.lt_succ_self _)
    | routines _ | constant _ | type _ => exact h.places k i hi
  distinct := Pascal.Scope.nodup_names_add h.distinct hnew
  named k v hv := by
    rw [Pascal.Scope.entity?_add hnew] at hv
    split at hv
    · next hk => rw [hk]; exact hname v (Option.some.inj hv)
    · exact h.named k v hv

/-- One more routine of a name that routines have. -/
theorem addRoutine (h : s.Mirrors c) {ids : List Nat}
    (hkey : c.entity? key = some (.routines ids)) (id : Nat) :
    Mirrors { s with routines := s.routines.append key (.user id) }
      (c.setRoutines key (ids ++ [id])) where
  kind := h.kind
  name := h.name
  parent := h.parent
  imports := h.imports
  declared k := by
    rw [Pascal.Scope.find?_setRoutines, h.declared k]
    split
    · next hk =>
      obtain ⟨d, hd, he⟩ := Option.map_eq_some_iff.mp hkey
      rw [hk, hd, Option.map_some, Option.map_some, Option.map_some, he]
      rfl
    · rfl
  routines := h.routines.append hkey id
  constants := h.constants.setRoutines (fun _ => rfl) hkey _
  types := h.types.setRoutines (fun _ => rfl) hkey _
  vars := h.vars.trans (Pascal.Scope.vars_setRoutines h.distinct _ hkey).symm
  placed := h.placed.setRoutines (fun _ => rfl) hkey _
  places := h.places
  distinct := Pascal.Scope.names_setRoutines c key _ ▸ h.distinct
  named k v hv := by
    rw [Pascal.Scope.entity?_setRoutines] at hv
    split at hv
    · obtain ⟨_, -, he⟩ := Option.map_eq_some_iff.mp hv
      cases he
    · exact h.named k v hv

theorem addImport (h : s.Mirrors c) (i : Import) :
    Mirrors (if s.imports.contains i then s else { s with imports := s.imports ++ [i] })
      (if c.imports.contains i then c else { c with imports := c.imports ++ [i] }) := by
  rw [h.imports]
  split
  · exact h
  · exact ⟨h.kind, h.name, h.parent, rfl, h.declared, h.routines, h.constants, h.types, h.vars,
      h.placed, h.places, h.distinct, h.named⟩

/-- There is a variable at each place that the table knows. -/
theorem isSome_placed (h : s.Mirrors c) (key : String) :
    (s.placed key).isSome = (s.places key).isSome := by
  unfold Scope.placed
  cases hi : s.places key with
  | none => rfl
  | some i => simp [h.places key i hi]

/-- A name is in the table of a kind if it is declared as something of that kind. -/
theorem has_iff (h : s.Mirrors c) (kind : Kind) (key : String) :
    s.has kind key ↔ ∃ pos, s.declared key = some (kind, pos) := by
  have hentity : c.entity? key = (c.find? key).map fun d => d.entity := rfl
  rw [h.declared key]
  cases kind with
  | var =>
    rw [has, ← h.isSome_placed, h.placed key, hentity]
    rcases c.find? key with _ | ⟨_, pos, _ | _ | _ | _⟩ <;> simp [Entity.var?, Entity.tabled]
  | constant =>
    rw [has, h.constants key, hentity]
    rcases c.find? key with _ | ⟨_, pos, _ | _ | _ | _⟩ <;> simp [Entity.constant?, Entity.tabled]
  | type =>
    rw [has, h.types key, hentity]
    rcases c.find? key with _ | ⟨_, pos, _ | _ | _ | _⟩ <;> simp [Entity.type?, Entity.tabled]
  | routine =>
    rw [has, h.routines key, hentity]
    rcases c.find? key with _ | ⟨_, pos, _ | _ | _ | _⟩ <;> simp [Entity.callees?, Entity.tabled]

theorem sound (h : s.Mirrors c) : s.Sound where
  has_iff := h.has_iff
  apart kind kind' key hk hk' := by
    obtain ⟨pos, hpos⟩ := (h.has_iff kind key).mp hk
    obtain ⟨pos', hpos'⟩ := (h.has_iff kind' key).mp hk'
    rw [hpos] at hpos'
    cases hpos'
    rfl
  placed key := by rw [has, h.isSome_placed]
  distinct := by
    have hname : ∀ d ∈ c.declared, ∀ v, d.entity.var? = some v → Text.lower v.name = d.name := by
      intro d hd v hv
      refine h.named d.name v ?_
      rw [Pascal.Scope.entity?, Pascal.Scope.find?_of_mem h.distinct hd, Option.map_some,
        Entity.var?_eq_some.mp hv]
    rw [h.vars, Pascal.Scope.vars_eq_filterMap, List.Nodup, List.pairwise_map, List.pairwise_filterMap]
    refine (List.pairwise_map.mp h.distinct).imp_of_mem fun hd hd' hne v hv v' hv' => ?_
    rwa [hname _ hd v hv, hname _ hd' v' hv']
  var?_iff name v := by
    rw [var?, h.placed, h.vars]
    constructor
    · intro hv
      obtain ⟨e, he, hv⟩ := Option.bind_eq_some_iff.mp hv
      rw [Entity.var?_eq_some.mp hv] at he
      exact ⟨Pascal.Scope.mem_vars he, h.named _ v he⟩
    · rintro ⟨hv, hname⟩
      rw [← hname, Pascal.Scope.entity?_of_mem_vars h.distinct h.named hv]
      rfl

end Mirrors
end Scope
end Tabled
end Pascal
