import Pascal.Proofs.Frames.Follows
import Pascal.Proofs.Sound.Store

/-!
# Typed frames

The slots of a frame lead to storage of the types of its variables. A parameter that is passed by
reference may leave open some bounds that its storage has.
-/

namespace Pascal

variable {d : Discipline} {a : Arena} {cells cells' : List Ty}

/-- What a reference leads to can be used as storage of a type. Only a view may leave open some of the
bounds that the storage has. -/
def Ref.Shows (d : Discipline) (cells : List Ty) (view : Bool) (r : Ref) (t : Ty) : Prop :=
  ∃ u, r.HasType cells u ∧ u.Seen d.bounds (t.outline d.bounds) ∧
    (view = false → u = t.outline d.bounds)

namespace Ref.Shows

variable {r : Ref} {view : Bool} {t : Ty}

theorem of_hasType (h : r.HasType cells (t.outline d.bounds)) : r.Shows d cells view t :=
  ⟨_, h, .refl _ _, fun _ => rfl⟩

theorem mono (h : r.Shows d cells view t) (hc : cells <+: cells') : r.Shows d cells' view t := by
  obtain ⟨u, hu, hseen, hexact⟩ := h
  exact ⟨u, hu.mono hc, hseen, hexact⟩

/-- Storage that is no view, or that has no open bounds to be seen with, is of the very type. -/
theorem exact (h : r.Shows d cells view t) (hc : d.bounds → t.isClosed ∨ view = false) :
    r.HasType cells (t.outline d.bounds) := by
  obtain ⟨u, hu, hseen, hexact⟩ := h
  have heq : u = t.outline d.bounds := by
    cases hb : d.bounds with
    | false =>
      rw [hb] at hseen
      exact hseen
    | true =>
      rw [hb] at hseen hexact hc
      rcases hc rfl with hclosed | hview
      · exact Ty.Opens.eq hseen (by rwa [Ty.outline_true])
      · exact hexact hview
  exact heq ▸ hu

theorem basic {b : Basic} (h : r.Shows d cells view (.basic b)) : r.HasType cells (.basic b) :=
  h.exact fun _ => .inl rfl

/-- Storage of a pointer type is of that very type. -/
theorem pointer (h : r.Shows d cells view (.pointer t)) (ht : (Ty.pointer t).Tame d) :
    r.HasType cells ((Ty.pointer t).outline d.bounds) := h.exact fun hb => .inl (ht.points hb)

theorem get {s : Store} (hs : s.Typed cells) (h : r.Shows d cells view t) :
    Gives (s.get r) (Value.HasType cells (t.outline d.bounds)) := by
  obtain ⟨u, hu, hseen, -⟩ := h
  exact (hs.get hu).mono fun _ hv => hv.opens hseen.opens

theorem element {range : Subrange} (h : r.Shows d cells view (.array t range)) (index : Int) :
    (r.element index).Shows d cells view t := by
  obtain ⟨u, hu, hseen, hexact⟩ := h
  cases hb : d.bounds with
  | false =>
    rw [hb] at hseen
    obtain rfl : u = (Ty.array t range).outline false := hseen
    exact .of_hasType (by rw [hb]; exact hu.element index)
  | true =>
    rw [hb, Ty.outline_true] at hseen hexact
    cases hseen with
    | refl =>
      refine .of_hasType ?_
      rw [hb, Ty.outline_true]
      exact hu.element index
    | array he _ =>
      refine ⟨_, hu.element index, ?_, fun hview => ?_⟩
      · rw [hb, Ty.outline_true]
        exact he
      · rw [hb, Ty.outline_true]
        exact (Ty.array.inj (hexact hview)).1

theorem charAt (h : r.Shows d cells view .string) (index : Int) :
    (r.charAt index).Shows d cells view .char := .of_hasType (h.basic.charAt index)

end Ref.Shows

namespace Arena.Alike

theorem varTy? {a' : Arena} (h : a.Alike a') (v : VarRef) : a'.varTy? v = a.varTy? v := by
  rw [Arena.varTy?, h.scope]
  rfl

theorem isReference {a' : Arena} (h : a.Alike a') (v : VarRef) : a'.isReference v = a.isReference v := by
  simp only [Arena.isReference, Arena.functionOf?, h.scope, h.signature]

end Arena.Alike

/-- The slots of a frame lead to storage of the types of its variables. Only a parameter that is passed by
reference is stored in a part of a cell. -/
def Frame.Typed (d : Discipline) (a : Arena) (cells : List Ty) (f : Frame) : Prop :=
  ∀ slot ∈ f.slots, ∃ t, a.varTy? ⟨f.scope, slot.1⟩ = some t ∧
    slot.2.Shows d cells (a.isReference ⟨f.scope, slot.1⟩) t ∧
    (a.isReference ⟨f.scope, slot.1⟩ = false → slot.2.path = [])

namespace Frame.Typed

variable {f : Frame} {scope : Nat} {slots : List (String × Ref)}

theorem mono (h : f.Typed d a cells) (hc : cells <+: cells') : f.Typed d a cells' := by
  intro slot hslot
  obtain ⟨t, ht, hshows, hwhole⟩ := h slot hslot
  exact ⟨t, ht, hshows.mono hc, hwhole⟩

theorem nil : Typed d a cells ⟨scope, []⟩ := fun _ h => by simp at h

theorem cons (h : Typed d a cells ⟨scope, slots⟩) {key : String} {r : Ref} {t : Ty}
    (ht : a.varTy? ⟨scope, key⟩ = some t) (hr : r.Shows d cells (a.isReference ⟨scope, key⟩) t)
    (hwhole : a.isReference ⟨scope, key⟩ = false → r.path = []) :
    Typed d a cells ⟨scope, (key, r) :: slots⟩ := by
  intro slot hslot
  rcases List.mem_cons.mp hslot with rfl | hslot
  · exact ⟨t, ht, hr, hwhole⟩
  · exact h slot hslot

theorem slot (h : f.Typed d a cells) {key : String} {r : Ref} (hr : f.slot? key = some r) :
    ∃ t, a.varTy? ⟨f.scope, key⟩ = some t ∧ r.Shows d cells (a.isReference ⟨f.scope, key⟩) t ∧
      (a.isReference ⟨f.scope, key⟩ = false → r.path = []) := by
  obtain ⟨⟨key', r'⟩, hfind, rfl⟩ := Option.map_eq_some_iff.mp hr
  obtain rfl : key' = key := by simpa using List.find?_some hfind
  exact h _ (List.mem_of_find?_eq_some hfind)

end Frame.Typed

/-- All types of some cells are ones that programs can write down. -/
def Ty.AllWritten (cells : List Ty) : Prop := ∀ t ∈ cells, t.isWritten

theorem Ty.AllWritten.push (h : Ty.AllWritten cells) {t : Ty} (ht : t.isWritten) :
    Ty.AllWritten (cells ++ [t]) := by
  intro u hu
  rcases List.mem_append.mp hu with hu | hu
  · exact h u hu
  · exact List.mem_singleton.mp hu ▸ ht

/-- All parts of types that can be written down can be written down. -/
theorem Ty.isWritten_at? {t u : Ty} {path : List Step} (ht : t.isWritten) (h : t.at? path = some u) :
    u.isWritten := by
  induction path generalizing t with
  | nil =>
    cases h
    exact ht
  | cons step path ih =>
    cases step with
    | element index =>
      cases t with
      | array element r => exact ih (show element.isWritten from ht) h
      | _ => cases h
    | charAt index =>
      simp only [Ty.at?] at h
      split at h
      · cases h
        rfl
      · cases h

theorem Ref.HasType.isWritten {r : Ref} {t : Ty} (h : r.HasType cells t) (hw : Ty.AllWritten cells) :
    t.isWritten := by
  obtain ⟨root, hroot, hpath⟩ := h
  exact Ty.isWritten_at? (hw root (List.mem_of_getElem? hroot)) hpath

/-- A variable of a scope is what its name is declared as. -/
theorem Scope.Sound.entity?_of_mem_vars {s : Nat} {sc : Scope} (h : sc.Sound a s) {v : Variable}
    (hv : v ∈ sc.vars) : sc.entity? (Text.lower v.name) = some (.var v) :=
  Scope.entity?_of_mem_vars h.distinct h.var hv

namespace World

variable {w : World} {scope : Nat} {slots : List (String × Ref)}

theorem store_initialValue (w : World) (t : Ty) : (w.initialValue t).2.store = w.store := by
  unfold initialValue
  split <;> rfl

theorem initialValue_hasType (w : World) (t : Ty) :
    (w.initialValue t).1.HasType cells (t.outline d.bounds) := by
  unfold initialValue
  split <;> exact Value.hasType_initial _ _ _

/-- A value that something starts with is of a type that can be written down, whether or not this is so of
the type that it is made for. -/
theorem exists_initialValue_hasType (w : World) (t : Ty) (bounds : Bool) :
    ∃ u : Ty, u.isWritten ∧ (w.initialValue t).1.HasType cells u ∧
      (t.isWritten → u = t.outline bounds) := by
  have hinitial : ∀ file, ∃ u : Ty, u.isWritten ∧ (t.initial file).HasType cells u ∧
      (t.isWritten → u = t.outline bounds) := by
    intro file
    cases hwritten : t.isWritten with
    | true =>
      refine ⟨t.outline bounds, ?_, Value.hasType_initial t file bounds, fun _ => rfl⟩
      rwa [Ty.isWritten_outline]
    | false =>
      obtain ⟨u, hu, hv⟩ : ∃ u : Ty, u.isWritten ∧ (t.initial file).HasType cells u := by
        clear hwritten
        induction t with
        | basic b => exact ⟨.basic b, rfl, Value.hasType_initial (.basic b) file bounds⟩
        | array element r ih =>
          obtain ⟨u, hu, hv⟩ := ih
          refine ⟨.array u r, hu, r.lower, _, rfl, fun _ => ⟨rfl, by simp⟩, fun item hi => ?_⟩
          rw [(List.mem_replicate.mp hi).2]
          exact hv
        | pointer | any | nil => exact ⟨.pointer .integer, rfl, none, rfl, by simp⟩
        | varargs =>
          exact ⟨.array .integer .unbounded, rfl, 0, [], rfl, fun hopen => (by cases hopen), by simp⟩
        | text => exact ⟨.text, rfl, file, rfl⟩
      exact ⟨u, hu, hv, fun h => by cases h⟩
  unfold initialValue
  split
  · exact hinitial _
  · exact hinitial _

/-- A variable begins with storage of its type. -/
theorem allocVariable_typed (h : w.store.Typed cells) {v : Variable} (hv : (Entity.var v).Sound d) :
    (w.allocVariable v).2.store.Typed (cells ++ [v.ty.outline d.bounds]) ∧
      (w.allocVariable v).1.HasType (cells ++ [v.ty.outline d.bounds]) (v.ty.outline d.bounds) := by
  unfold allocVariable
  split
  · next x hx =>
    exact h.alloc ((hv.2.2 x hx).type.mono List.nil_prefix)
  · have hstore : (w.initialValue v.ty).2.store.Typed cells := w.store_initialValue v.ty ▸ h
    exact hstore.alloc (w.initialValue_hasType v.ty)

theorem path_allocVariable (w : World) (v : Variable) : (w.allocVariable v).1.path = [] := by
  unfold allocVariable
  split <;> rfl

/-- Slots for variables of a scope lead to storage of their types. -/
theorem addSlots_typed {vs : List Variable}
    (hvs : ∀ v ∈ vs, (a.scope scope).entity? (Text.lower v.name) = some (.var v))
    (ha : a.Holds (Entity.Sound d)) (h : w.store.Typed cells) (hw : Ty.AllWritten cells)
    (hslots : Frame.Typed d a cells ⟨scope, slots⟩) :
    ∃ cells', cells <+: cells' ∧ (w.addSlots slots vs).2.store.Typed cells' ∧ Ty.AllWritten cells' ∧
      Frame.Typed d a cells' ⟨scope, (w.addSlots slots vs).1⟩ := by
  induction vs generalizing w slots cells with
  | nil => exact ⟨cells, List.prefix_rfl, h, hw, hslots⟩
  | cons v vs ih =>
    obtain ⟨hv, hrest⟩ := List.forall_mem_cons.mp hvs
    rw [addSlots]
    dsimp only
    split
    · exact ih hrest h hw hslots
    · have hsound := ha _ _ _ hv
      obtain ⟨hstore, href⟩ := allocVariable_typed h hsound
      have hgrown : cells <+: cells ++ [v.ty.outline d.bounds] := List.prefix_append _ _
      obtain ⟨cells', hcells, htyped, hwritten, hframe⟩ := ih hrest hstore
        (hw.push (by rw [Ty.isWritten_outline]; exact hsound.1))
        ((hslots.mono hgrown).cons (Arena.varTy?_eq_some hv) (.of_hasType href)
          fun _ => w.path_allocVariable v)
      exact ⟨cells', hgrown.trans hcells, htyped, hwritten, hframe⟩

end World

/-- The frames of the units and the main program are typed. -/
theorem Program.globalFrames_typed {p : Program} (hp : a.Alike p.arena) (hn : a.Nested)
    (ha : a.Holds (Entity.Sound d)) {scopes : List Nat} {w : World} (h : w.store.Typed cells)
    (hw : Ty.AllWritten cells) :
    ∃ cells', cells <+: cells' ∧ (p.globalFrames scopes w).2.store.Typed cells' ∧
      Ty.AllWritten cells' ∧ ∀ f ∈ (p.globalFrames scopes w).1, f.Typed d a cells' := by
  induction scopes generalizing w cells with
  | nil => exact ⟨cells, List.prefix_rfl, h, hw, by simp [globalFrames]⟩
  | cons scope scopes ih =>
    have hvs : ∀ v ∈ (p.arena.scope scope).vars,
        (a.scope scope).entity? (Text.lower v.name) = some (.var v) := fun v hv =>
      (hn.sound scope).entity?_of_mem_vars (hp.scope scope ▸ hv)
    obtain ⟨cells₁, hcells₁, htyped, hwritten, hframe⟩ := World.addSlots_typed hvs ha h hw .nil
    obtain ⟨cells₂, hcells₂, htyped, hwritten, hframes⟩ := ih htyped hwritten
    exact ⟨cells₂, hcells₁.trans hcells₂, htyped, hwritten,
      List.forall_mem_cons.mpr ⟨hframe.mono hcells₂, hframes⟩⟩

/-- What is passed for a parameter of a type. -/
def Passed.Typed (d : Discipline) (cells : List Ty) (t : Ty) (mode : ParamMode) : Passed → Prop
  | .value v => mode ≠ .var ∧ v.HasType cells (t.outline d.bounds)
  | .reference r => mode = .var ∧
      ∃ u, r.HasType cells u ∧ (t = .any ∨ u.Seen d.bounds (t.outline d.bounds))

/-- What is passed for some parameters, and for further ones. -/
def passedTyped (d : Discipline) (cells : List Ty) (further : Option (Ty × ParamMode)) :
    List Passed → List Parameter → Prop
  | [], ps => ps = []
  | x :: xs, [] => (∃ t mode, further = some (t, mode) ∧ x.Typed d cells t mode) ∧
      passedTyped d cells further xs []
  | x :: xs, p :: ps => x.Typed d cells p.ty p.mode ∧ passedTyped d cells further xs ps

namespace Passed

variable {x : Passed} {t : Ty} {mode : ParamMode}

theorem Typed.mono (h : x.Typed d cells t mode) (hc : cells <+: cells') :
    x.Typed d cells' t mode := by
  cases x with
  | value v => exact ⟨h.1, h.2.mono hc⟩
  | reference r =>
    obtain ⟨hm, u, hu, hseen⟩ := h
    exact ⟨hm, u, hu.mono hc, hseen⟩

end Passed

theorem passedTyped.mono {further : Option (Ty × ParamMode)} {xs : List Passed} {ps : List Parameter}
    (h : passedTyped d cells further xs ps) (hc : cells <+: cells') :
    passedTyped d cells' further xs ps := by
  induction xs generalizing ps with
  | nil => exact h
  | cons x xs ih =>
    cases ps with
    | nil =>
      obtain ⟨⟨t, mode, hf, hx⟩, hrest⟩ := h
      exact ⟨⟨t, mode, hf, hx.mono hc⟩, ih hrest⟩
    | cons p ps => exact ⟨h.1.mono hc, ih h.2⟩

namespace UserRoutine

/-- The parameters get storage of their types, or that of the variables that are passed. -/
theorem bindParams_typed {scope : Nat} {further : Option (Ty × ParamMode)} {passed : List Passed}
    {ps : List Parameter} {w : World}
    (hps : ∀ p ∈ ps, a.varTy? ⟨scope, Text.lower p.name⟩ = some p.ty ∧ p.ty.isWritten ∧
      (p.mode = .var → a.isReference ⟨scope, Text.lower p.name⟩))
    (h : w.store.Typed cells) (hw : Ty.AllWritten cells)
    (hpassed : passedTyped d cells further passed ps) :
    ∃ cells', cells <+: cells' ∧ (bindParams ps passed w).2.store.Typed cells' ∧
      Ty.AllWritten cells' ∧ Frame.Typed d a cells' ⟨scope, (bindParams ps passed w).1⟩ := by
  induction ps generalizing passed w cells with
  | nil =>
    exact ⟨cells, List.prefix_rfl, by cases passed <;> exact h, hw, by cases passed <;> exact .nil⟩
  | cons p ps ih =>
    obtain ⟨⟨hty, hwritten, hview⟩, hps⟩ := List.forall_mem_cons.mp hps
    cases passed with
    | nil => cases hpassed
    | cons x passed =>
      obtain ⟨hx, hrest⟩ := hpassed
      cases x with
      | value v =>
        obtain ⟨hstore, href⟩ := h.alloc hx.2
        have hgrown : cells <+: cells ++ [p.ty.outline d.bounds] := List.prefix_append _ _
        obtain ⟨cells', hcells, htyped, hall, hframe⟩ := ih (w := (w.alloc v).2) hps hstore
          (hw.push (by rwa [Ty.isWritten_outline])) (hrest.mono hgrown)
        exact ⟨cells', hgrown.trans hcells, htyped, hall,
          hframe.cons hty (.of_hasType (href.mono hcells)) fun _ => rfl⟩
      | reference r =>
        obtain ⟨hm, u, hu, hseen⟩ := hx
        obtain ⟨cells', hcells, htyped, hall, hframe⟩ := ih (w := w) hps h hw hrest
        have hno : ∀ {P : Prop}, a.isReference ⟨scope, Text.lower p.name⟩ = false → P := fun hno => by
          rw [hview hm] at hno
          cases hno
        refine ⟨cells', hcells, htyped, hall,
          hframe.cons hty ⟨u, hu.mono hcells, hseen.resolve_left ?_, hno⟩ hno⟩
        intro he
        rw [he] at hwritten
        cases hwritten

/-- A new activation has typed storage for all its variables. -/
theorem newFrame_typed (ha : a.Sound d) (hn : a.Nested) (hh : a.Headed) {id : Nat}
    (hid : id < a.functions.size) {f : UserRoutine} (hf : f.heading = (a.function id).heading)
    {further : Option (Ty × ParamMode)} {passed : List Passed} {w : World}
    (h : w.store.Typed cells) (hw : Ty.AllWritten cells)
    (hpassed : passedTyped d cells further passed f.signature.params) :
    ∃ cells', cells <+: cells' ∧
      (f.newFrame (a.scope f.scope).vars passed w).2.store.Typed cells' ∧ Ty.AllWritten cells' ∧
      (f.newFrame (a.scope f.scope).vars passed w).1.Typed d a cells' := by
  have hscope : f.scope = (a.function id).scope := congrArg (·.scope) hf
  have hsig : f.signature = (a.function id).signature := congrArg (·.signature) hf
  have howner : a.functionOf? f.scope = some id := by
    rw [hscope, Arena.functionOf?, (hn.own id hid).2]
  have hps : ∀ p ∈ f.signature.params, a.varTy? ⟨f.scope, Text.lower p.name⟩ = some p.ty ∧
      p.ty.isWritten ∧ (p.mode = .var → a.isReference ⟨f.scope, Text.lower p.name⟩) := by
    intro p hp
    rw [hsig] at hp
    have hwritten := (ha.functions id hid).2 p hp
    have hstored : p.storedTy = p.ty := by
      unfold Parameter.storedTy
      split
      · next he => rw [he] at hwritten; cases hwritten
      · rfl
    have hdeclared := hh id hid _ (List.mem_append_left _ (List.mem_map.mpr ⟨p, hp, rfl⟩))
    refine ⟨?_, hwritten, fun hm => ?_⟩
    · rw [hscope, Arena.varTy?_eq_some hdeclared, hstored]
    · simp only [Arena.isReference, howner, Option.any_some, List.any_eq_true]
      exact ⟨p, hp, by simp [hm]⟩
  obtain ⟨cells₁, hcells₁, htyped, hall, hframe⟩ := bindParams_typed hps h hw hpassed
  obtain ⟨cells₂, hcells₂, htyped, hall, hframe⟩ := World.addSlots_typed
    (fun v hv => (hn.sound f.scope).entity?_of_mem_vars hv) ha.entities htyped hall hframe
  exact ⟨cells₂, hcells₁.trans hcells₂, htyped, hall, hframe⟩

end UserRoutine

end Pascal
