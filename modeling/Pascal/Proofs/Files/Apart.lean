import Pascal.Program.Run
import Pascal.Proofs.Machine.References
import Pascal.Proofs.Ty.Bounds
import Pascal.Proofs.Typing.HasType

/-!
# The files of variables

A text file is referred to by its number, and what is stored holds such numbers. A variable begins with a
number that nothing else holds, so that different cells hold different files; but all elements of an array
begin with the same one. Where no text is copied from one cell to another, this stays so.
-/

namespace Pascal

variable {v w x y : Value} {path : List Step} {n : Nat}

namespace Ty

/-- Whether no value of a type refers to a text file. -/
def isTextless : Ty → Bool
  | array element _ => element.isTextless
  | basic _ | pointer _ | nil => true
  | text | any | varargs _ => false

@[simp] theorem isTextless_outline (t : Ty) (bounds : Bool) :
    (t.outline bounds).isTextless = t.isTextless := by
  induction t <;> simp_all [outline, isTextless]

end Ty

namespace Value

theorem mem_filesOf {vs : List Value} : n ∈ filesOf vs ↔ ∃ v ∈ vs, n ∈ v.files := by
  induction vs with
  | nil => simp [filesOf]
  | cons v vs ih => simp [filesOf, ih]

theorem files_of_basic (h : v.basic?.isSome) : v.files = [] := by
  cases v <;> first | rfl | cases h

/-- A value of a type without texts refers to no file. -/
theorem HasType.files_eq_nil {cells : List Ty} {t : Ty} (h : v.HasType cells t) (ht : t.isTextless) :
    v.files = [] := by
  induction t generalizing v with
  | basic b => exact files_of_basic (Option.isSome_of_eq_some h)
  | array element r ih =>
    obtain ⟨lower, items, rfl, -, hitems⟩ := h
    refine List.eq_nil_iff_forall_not_mem.mpr fun n hn => ?_
    obtain ⟨item, hitem, hn⟩ := mem_filesOf.mp hn
    rw [ih (hitems item hitem) ht] at hn
    cases hn
  | pointer target =>
    obtain ⟨target, rfl, -⟩ := h
    rfl
  | nil =>
    cases h
    rfl
  | text | any | varargs => cases ht

/-- A part of a value refers to none but the files of the value. -/
theorem files_subset_of_follow (h : v.follow path = .ok w) : w.files ⊆ v.files := by
  induction path generalizing v with
  | nil =>
    cases h
    exact List.Subset.refl _
  | cons step path ih =>
    cases step with
    | element index =>
      obtain ⟨item, hat, hrest⟩ := bind_eq_ok.mp h
      obtain ⟨lower, items, k, rfl, -, hitem⟩ := elementAt_eq_ok.mp hat
      exact fun n hn => mem_filesOf.mpr ⟨item, List.mem_of_getElem? hitem, ih hrest hn⟩
    | charAt index =>
      obtain ⟨c, -, hw⟩ := bind_eq_ok.mp h
      cases hw
      exact List.nil_subset _

/-- Where a part is replaced by what refers to no file, no file comes in. -/
theorem DiffersAt.files_subset (h : DiffersAt x y path v w) (hy : y.files = []) :
    w.files ⊆ v.files := by
  induction h with
  | whole => exact hy ▸ List.nil_subset _
  | @element lower index items k v w path hindex hitem _ ih =>
    intro n hn
    obtain ⟨item, hmem, hin⟩ := mem_filesOf.mp hn
    rcases List.mem_or_eq_of_mem_set hmem with hmem | rfl
    · exact mem_filesOf.mpr ⟨item, hmem, hin⟩
    · exact mem_filesOf.mpr ⟨v, List.mem_of_getElem? hitem, ih hin⟩
  | character => exact List.nil_subset _

end Value

/-! ## Initial values -/

namespace Ty

/-- How many texts a variable of a type holds from the start. -/
def texts : Ty → Nat
  | array element r => r.length * element.texts
  | text => 1
  | basic _ | pointer _ | varargs _ | any | nil => 0

theorem files_initial (t : Ty) (file : Nat) : (t.initial file).files = List.replicate t.texts file := by
  induction t with
  | basic b => cases b <;> rfl
  | array element r ih =>
    have hitems (k : Nat) : Value.filesOf (List.replicate k (element.initial file)) =
        List.replicate (k * element.texts) file := by
      induction k with
      | zero => simp [Value.filesOf]
      | succ k ihk =>
        rw [List.replicate_succ, Value.filesOf, ih, ihk, List.replicate_append_replicate,
          Nat.add_comm, Nat.succ_mul]
    exact hitems r.length
  | _ => rfl

theorem holdsText_of_texts {t : Ty} (h : 0 < t.texts) : t.holdsText := by
  induction t with
  | array element r ih => exact ih (Nat.pos_of_mul_pos_left h)
  | text => rfl
  | _ => cases h

/-- A text in an initial value is the file that the value was made with. -/
theorem eq_of_follow_initial {t : Ty} {file : Nat} (h : (t.initial file).follow path = .ok (.text n)) :
    n = file ∧ 0 < t.texts := by
  have hmem : n ∈ (t.initial file).files := Value.files_subset_of_follow h List.mem_cons_self
  rw [files_initial, List.mem_replicate] at hmem
  exact ⟨hmem.2, Nat.pos_of_ne_zero hmem.1⟩

/-- A path into an initial array first leads to one of its elements, which are all the same. -/
theorem follow_initial_array {element : Ty} {r : Subrange} {file : Nat} :
    ((array element r).initial file).follow path = .ok (.text n) ↔ ∃ (k : Nat) (rest : List Step),
      k < r.length ∧ path = .element (r.lower.toInt + k) :: rest ∧
        (element.initial file).follow rest = .ok (.text n) := by
  constructor
  · intro h
    cases path with
    | nil => cases h
    | cons step rest =>
      cases step with
      | element index =>
        obtain ⟨item, hat, hrest⟩ := bind_eq_ok.mp h
        obtain ⟨lower, items, k, he, hk, hitem⟩ := Value.elementAt_eq_ok.mp hat
        cases he
        obtain rfl := Value.eq_of_offset hk
        obtain ⟨hk, rfl⟩ : k < r.length ∧ element.initial file = item := by
          simpa [List.getElem?_replicate] using hitem
        exact ⟨k, rest, hk, rfl, hrest⟩
      | charAt index => cases h
  · rintro ⟨k, rest, hk, rfl, hrest⟩
    have hindex : Value.offset r.lower r.length (r.lower.toInt + k) = .ok k :=
      Value.offset_of_lt hk r.length_lt r.lower_add_length
    have hat : ((array element r).initial file).elementAt (r.lower.toInt + k) =
        .ok (element.initial file) :=
      Value.elementAt_eq_ok.mpr ⟨_, _, k, rfl, by rwa [List.length_replicate], by simp [hk]⟩
    rw [Value.follow, hat]
    exact hrest

theorem exists_follow_initial {t : Ty} (h : 0 < t.texts) (file : Nat) :
    ∃ path, (t.initial file).follow path = .ok (.text file) := by
  induction t with
  | array element r ih =>
    obtain ⟨path, hpath⟩ := ih (Nat.pos_of_mul_pos_left h)
    exact ⟨_, follow_initial_array.mpr ⟨0, path, Nat.pos_of_mul_pos_right h, rfl, hpath⟩⟩
  | text => exact ⟨[], rfl⟩
  | _ => cases h

/-- Different texts in an initial value are different files just where there is no more than one. -/
theorem initial_apart_iff (t : Ty) (file : Nat) :
    (∀ path path' n, (t.initial file).follow path = .ok (.text n) →
      (t.initial file).follow path' = .ok (.text n) → path = path') ↔ t.texts ≤ 1 := by
  induction t with
  | array element r ih =>
    constructor
    · intro h
      by_contra hmany
      have hpos : 0 < r.length * element.texts := by
        change ¬ r.length * element.texts ≤ 1 at hmany
        omega
      have hlength := Nat.pos_of_mul_pos_right hpos
      have helement : element.texts ≤ 1 := by
        refine ih.mp fun path path' n hp hp' => ?_
        have he := h _ _ n (follow_initial_array.mpr ⟨0, path, hlength, rfl, hp⟩)
          (follow_initial_array.mpr ⟨0, path', hlength, rfl, hp'⟩)
        exact (List.cons.inj he).2
      obtain ⟨path, hpath⟩ := exists_follow_initial (Nat.pos_of_mul_pos_left hpos) file
      have htwo : 1 < r.length := by
        by_contra hle
        exact hmany (Nat.mul_le_mul (by omega : r.length ≤ 1) helement)
      have he := h _ _ file (follow_initial_array.mpr ⟨0, path, hlength, rfl, hpath⟩)
        (follow_initial_array.mpr ⟨1, path, htwo, rfl, hpath⟩)
      simp only [List.cons.injEq, Step.element.injEq] at he
      omega
    · intro h path path' n hp hp'
      obtain ⟨k, rest, hk, rfl, hrest⟩ := follow_initial_array.mp hp
      obtain ⟨k', rest', hk', rfl, hrest'⟩ := follow_initial_array.mp hp'
      have hpos : 0 < element.texts := (eq_of_follow_initial hrest).2
      have hlength : r.length ≤ 1 := by
        by_contra hmany
        have hle := Nat.mul_le_mul (by omega : 2 ≤ r.length) hpos
        change r.length * element.texts ≤ 1 at h
        omega
      have helement : element.texts ≤ 1 :=
        (Nat.le_mul_of_pos_left _ (by omega)).trans h
      obtain rfl := ih.mpr helement rest rest' n hrest hrest'
      obtain rfl : k = k' := by omega
      rfl
  | text =>
    refine iff_of_true (fun path path' n hp hp' => ?_) (Nat.le_refl 1)
    cases path with
    | nil =>
      cases path' with
      | nil => rfl
      | cons step rest => cases step <;> cases hp'
    | cons step rest => cases step <;> cases hp
  | basic | pointer | varargs | any | nil =>
    refine iff_of_true (fun path path' n hp _ => ?_) (Nat.zero_le 1)
    have hpos : 0 < 0 := (eq_of_follow_initial hp).2
    omega

end Ty

namespace Store

variable {s : Store}

theorem files_of_get {r : Ref} (h : s.get r = .ok v) : v.files ⊆ (s.content r.cell).files := by
  unfold get at h
  unfold content
  split at h
  · next root hroot =>
    rw [hroot]
    exact Value.files_subset_of_follow h
  · cases h

theorem content_alloc (s : Store) (v : Value) (c : Nat) :
    (s.alloc v).2.content c = if c = s.cells.size then v else s.content c := by
  simp only [content, alloc, Array.getElem?_push]
  split <;> rfl

/-- A cell that loses files or keeps them, and the others. -/
theorem files_put {i : Nat} (hv : v.files ⊆ (s.content i).files) (c : Nat) :
    ((s.put i v).content c).files ⊆ (s.content c).files := by
  simp only [content, put, Array.getElem?_setIfInBounds]
  split
  · next hi =>
    subst hi
    split
    · exact hv
    · exact List.nil_subset _
  · exact List.Subset.refl _

/-- What is stored in place of a part, where it refers to no file. -/
theorem files_revised {r : Ref} {f : Value → Except Fault Value}
    (hf : ∀ old new, f old = .ok new → new.files = []) (h : s.revised r f = .ok v) (c : Nat) :
    ((s.put r.cell v).content c).files ⊆ (s.content c).files := by
  refine files_put ?_ c
  unfold revised at h
  unfold content
  split at h
  · next root hroot =>
    rw [hroot]
    obtain ⟨x, y, hdiffers, hy⟩ := Value.revise_eq_ok.mp h
    exact hdiffers.files_subset (hf x y hy)
  · cases h

end Store

namespace World

variable {w w' w'' : World}

/-- Two texts are the same file just where one cell holds them both. -/
structure Apart (w : World) : Prop where
  known : ∀ c, ∀ n ∈ (w.store.content c).files, n < w.files.size
  same_iff : ∀ {c c' n n' : Nat}, n ∈ (w.store.content c).files → n' ∈ (w.store.content c').files →
    (n = n' ↔ c = c')

/-- No file comes up, neither anew nor in a cell that did not hold it. -/
structure Spares (w w' : World) : Prop where
  size : w'.files.size = w.files.size
  files : ∀ c, (w'.store.content c).files ⊆ (w.store.content c).files

/-- A value refers to one file at most, which no cell holds. -/
structure Fresh (w : World) (v : Value) : Prop where
  known : ∀ n ∈ v.files, n < w.files.size
  unheld : ∀ n ∈ v.files, ∀ c, n ∉ (w.store.content c).files
  same : ∀ n ∈ v.files, ∀ n' ∈ v.files, n = n'

namespace Spares

theorem refl (w : World) : w.Spares w := ⟨rfl, fun _ => List.Subset.refl _⟩

theorem trans (h : w.Spares w') (h' : w'.Spares w'') : w.Spares w'' :=
  ⟨h'.size.trans h.size, fun c => List.Subset.trans (h'.files c) (h.files c)⟩

theorem of_store (hs : w'.store = w.store) (hf : w'.files.size = w.files.size) : w.Spares w' :=
  ⟨hf, fun _ => hs ▸ List.Subset.refl _⟩

theorem revised {r : Ref} {f : Value → Except Fault Value}
    (hf : ∀ old new, f old = .ok new → new.files = []) (h : w.store.revised r f = .ok v) :
    w.Spares { w with store := w.store.put r.cell v } :=
  ⟨rfl, Store.files_revised hf h⟩

end Spares

theorem Fresh.of_files (h : v.files = []) (w : World) : w.Fresh v := by
  constructor <;> simp [h]

namespace Apart

theorem of_spares (h : w.Apart) (hs : w.Spares w') : w'.Apart where
  known c n hn := hs.size ▸ h.known c n (hs.files c hn)
  same_iff hn hn' := h.same_iff (hs.files _ hn) (hs.files _ hn')

theorem of_empty (h : w.store = {}) : w.Apart := by
  have hnone (c : Nat) : (w.store.content c).files = [] := by simp [h, Store.content, Value.files]
  constructor <;> simp [hnone]

/-- What is read at two places is the same file just where they are in one cell. -/
theorem get (h : w.Apart) {r r' : Ref} {n n' : Nat} (hr : w.store.get r = .ok (.text n))
    (hr' : w.store.get r' = .ok (.text n')) : n = n' ↔ r.cell = r'.cell :=
  h.same_iff (Store.files_of_get hr List.mem_cons_self) (Store.files_of_get hr' List.mem_cons_self)

/-- A new cell may hold what no other cell does. -/
theorem alloc (h : w.Apart) (hv : w.Fresh v) : (w.alloc v).2.Apart where
  known c n hn := by
    rw [show (w.alloc v).2.store = (w.store.alloc v).2 from rfl, Store.content_alloc] at hn
    split at hn
    · exact hv.known n hn
    · exact h.known c n hn
  same_iff {c c' n n'} hn hn' := by
    rw [show (w.alloc v).2.store = (w.store.alloc v).2 from rfl, Store.content_alloc] at hn hn'
    split at hn <;> split at hn'
    · next hc hc' => exact iff_of_true (hv.same n hn n' hn') (hc.trans hc'.symm)
    · next hc hc' =>
      refine iff_of_false (fun he => hv.unheld n hn c' (he ▸ hn')) fun he => hc' (he ▸ hc)
    · next hc hc' =>
      exact iff_of_false (fun he => hv.unheld n' hn' c (he ▸ hn)) fun he => hc (he ▸ hc')
    · exact h.same_iff hn hn'

/-- A value that something starts with refers to a new file, if to any. -/
theorem initialValue (h : w.Apart) (t : Ty) :
    (w.initialValue t).2.Apart ∧ (w.initialValue t).2.Fresh (w.initialValue t).1 := by
  unfold World.initialValue
  split
  · have hsize : w.newFile.2.files.size = w.files.size + 1 := Array.size_push _
    have hmem {n : Nat} (hn : n ∈ (t.initial w.newFile.1).files) : n = w.files.size := by
      rw [Ty.files_initial] at hn
      exact (List.mem_replicate.mp hn).2
    change w.newFile.2.Apart ∧ w.newFile.2.Fresh (t.initial w.newFile.1)
    refine ⟨⟨fun c n hn => ?_, h.same_iff⟩, fun n hn => ?_, fun n hn c hc => ?_, fun n hn n' hn' => ?_⟩
    · have hlt := h.known c n hn
      omega
    · have he := hmem hn
      omega
    · have hlt := h.known c n hc
      have he := hmem hn
      omega
    · exact (hmem hn).trans (hmem hn').symm
  · next ht =>
    refine ⟨h, .of_files ?_ w⟩
    rw [Ty.files_initial, Nat.eq_zero_of_not_pos fun hpos => ht (Ty.holdsText_of_texts hpos)]
    rfl

/-- A variable that is declared without a file begins with one of its own. -/
theorem allocVariable (h : w.Apart) {v : Variable} (hv : ∀ x, v.initial = some x → x.files = []) :
    (w.allocVariable v).2.Apart := by
  unfold World.allocVariable
  split
  · next x hx => exact h.alloc (.of_files (hv x hx) w)
  · obtain ⟨hapart, hfresh⟩ := h.initialValue v.ty
    exact hapart.alloc hfresh

theorem addSlots (h : w.Apart) {vs : List Variable}
    (hvs : ∀ v ∈ vs, ∀ x, v.initial = some x → x.files = []) (slots : List (String × Ref)) :
    (w.addSlots slots vs).2.Apart := by
  induction vs generalizing w slots with
  | nil => exact h
  | cons v vs ih =>
    obtain ⟨hv, hvs⟩ := List.forall_mem_cons.mp hvs
    rw [World.addSlots]
    dsimp only
    split
    · exact ih h hvs slots
    · exact ih (h.allocVariable hv) hvs _

/-- What is passed by value gets a cell of its own, and refers to no file. -/
theorem bindParams (h : w.Apart) {passed : List Passed} (hpassed : ∀ v, .value v ∈ passed → v.files = [])
    (ps : List Parameter) : (UserRoutine.bindParams ps passed w).2.Apart := by
  induction ps generalizing passed w with
  | nil => cases passed <;> exact h
  | cons p ps ih =>
    cases passed with
    | nil => exact h
    | cons x passed =>
      have hrest : ∀ v, .value v ∈ passed → v.files = [] := fun v hv =>
        hpassed v (List.mem_cons_of_mem _ hv)
      cases x with
      | value v => exact ih (h.alloc (.of_files (hpassed v List.mem_cons_self) w)) hrest
      | reference r => exact ih h hrest

theorem newFrame (h : w.Apart) {f : UserRoutine} {vs : List Variable} {passed : List Passed}
    (hpassed : ∀ v, .value v ∈ passed → v.files = [])
    (hvs : ∀ v ∈ vs, ∀ x, v.initial = some x → x.files = []) : (f.newFrame vs passed w).2.Apart :=
  (h.bindParams hpassed f.signature.params).addSlots hvs _

theorem globalFrames (h : w.Apart) {p : Program}
    (hp : ∀ scope, ∀ v ∈ (p.arena.scope scope).vars, ∀ x, v.initial = some x → x.files = [])
    (scopes : List Nat) : (p.globalFrames scopes w).2.Apart := by
  induction scopes generalizing w with
  | nil => exact h
  | cons scope scopes ih => exact ih (h.addSlots (hp scope) [])

end Apart

end World

end Pascal
