import Mathlib.Data.List.Infix
import Pascal.Machine
import Pascal.Proofs.Ty.Bounds
import Pascal.Proofs.Typing.Build

/-!
# Reading and writing through references

A reference leads through the elements of nested arrays, and perhaps to a character of a string in the
end. Reading and writing walk along it on their own. Here both are compared with one relation, between two
values that are the same but for what they hold at the end of a path: a write leads from one such value to
the other, and each of them is read as its own part.
-/

namespace Pascal

namespace Step

/-- Only the last step of a path leads to a character. -/
def CharLast (path : List Step) : Prop := ∀ index, charAt index ∉ path.dropLast

/-- Two paths that take different steps somewhere. -/
inductive Diverge : List Step → List Step → Prop where
  | here {a b : Step} {p q : List Step} (h : a ≠ b) : Diverge (a :: p) (b :: q)
  | later {a : Step} {p q : List Step} (h : Diverge p q) : Diverge (a :: p) (a :: q)

theorem CharLast.element {index : Int} {path : List Step} (h : CharLast path) :
    CharLast (element index :: path) := by
  intro i hmem
  cases path with
  | nil => cases hmem
  | cons step path =>
    rw [List.dropLast_cons_of_ne_nil (List.cons_ne_nil _ _)] at hmem
    rcases List.mem_cons.mp hmem with he | hmem
    · cases he
    · exact h i hmem

theorem CharLast.tail {step : Step} {path : List Step} (h : CharLast (step :: path)) :
    CharLast path := by
  intro index hmem
  have hne : path ≠ [] := by
    rintro rfl
    simp at hmem
  apply h index
  rw [List.dropLast_cons_of_ne_nil hne]
  exact List.mem_cons_of_mem _ hmem

theorem CharLast.eq_nil {index : Int} {path : List Step} (h : CharLast (charAt index :: path)) :
    path = [] := by
  by_contra hne
  apply h index
  rw [List.dropLast_cons_of_ne_nil hne]
  exact List.mem_cons_self

end Step

namespace Value

open Step

variable {v w x y : Value} {path : List Step}

/-- A value that can stand at the end of a path: a character, where the path leads to one. -/
def StandsAt (v : Value) (path : List Step) : Prop :=
  ∀ index, path.getLast? = some (.charAt index) → ∃ c, v = char c

theorem StandsAt.tail {step next : Step} (h : x.StandsAt (step :: next :: path)) :
    x.StandsAt (next :: path) := by
  intro index hlast
  apply h index
  rw [List.getLast?_cons_cons]
  exact hlast

/-- Two arrays with the same bounds, or two strings of the same length. -/
inductive SameBounds : Value → Value → Prop where
  | array {lower : Int64} {items items' : List Value} (h : items'.length = items.length) :
      SameBounds (array lower items) (array lower items')
  | string {s s' : String} (h : s'.length = s.length) : SameBounds (string s) (string s')

/-- Two values that are the same but for the parts at the end of a path, `x` and `y`. -/
inductive DiffersAt (x y : Value) : List Step → Value → Value → Prop where
  | whole : DiffersAt x y [] x y
  | element {lower : Int64} {index : Int} {items : List Value} {k : Nat} {v w : Value}
      {path : List Step} (hindex : offset lower items.length index = .ok k)
      (hitem : items[k]? = some v) (h : DiffersAt x y path v w) :
      DiffersAt x y (.element index :: path) (array lower items) (array lower (items.set k w))
  | character {index : Int} {s : String} {k : Nat} {c d : Char}
      (hindex : offset 1 s.toList.length index = .ok k)
      (hchar : s.toList[k]? = some c) (hx : x = char c) (hy : y = char d) :
      DiffersAt x y [.charAt index] (string s) (string (String.ofList (s.toList.set k d)))

/-! ### Single steps -/

/-- Offsets that do not fit into 64 bits go round to negative ones, so that one which is found is exact. -/
theorem eq_of_offset {lower : Int64} {index : Int} {length k : Nat}
    (h : offset lower length index = .ok k) : index = lower.toInt + k := by
  unfold offset at h
  dsimp only at h
  split at h
  · cases h
  · next hbounds =>
    split at h
    · cases h
    · next hdistance =>
      cases h
      obtain ⟨hlower, hupper⟩ := not_or.mp hbounds
      rw [Int64.lt_iff_toInt_lt, Int64.toInt_zero, Int.not_lt] at hdistance
      have hround : (Int64.ofInt index - lower).toInt = (index - lower.toInt).bmod Int64.size := by
        rw [← Int64.ofInt_toInt lower, ← Int64.ofInt_sub, Int64.toInt_ofInt, Int64.ofInt_toInt]
      rw [hround, Int.bmod_def, Int64.size] at hdistance ⊢
      have hlast := (lower + Int64.ofNat length - 1).toInt_lt
      have hfirst := lower.le_toInt
      omega

/-- Different indices have different offsets. -/
theorem offset_inj {lower : Int64} {index index' : Int} {length length' k : Nat}
    (h : offset lower length index = .ok k) (h' : offset lower length' index' = .ok k) :
    index = index' :=
  (eq_of_offset h).trans (eq_of_offset h').symm

/-- Where 64 bits hold the length and the last index, every item has an index. -/
theorem offset_of_lt {lower : Int64} {length k : Nat} (hk : k < length)
    (hlength : length < 0x8000000000000000) (hlast : lower.toInt + length ≤ 0x8000000000000000) :
    offset lower length (lower.toInt + k) = .ok k := by
  have hfirst := lower.le_toInt
  have hsize : (Int64.ofNat length).toInt = length := Int64.toInt_ofNat_of_lt hlength
  have hupper : (lower + Int64.ofNat length - 1).toInt = lower.toInt + length - 1 := by
    rw [Subrange.toInt_last (by omega) (by omega), hsize]
  have hdistance : (Int64.ofInt (lower.toInt + k) - lower).toInt = k := by
    rw [Int64.ofInt_add, Int64.ofInt_toInt, Int64.add_comm, Int64.add_sub_cancel]
    exact Int64.toInt_ofInt_of_le (by omega) (by omega)
  have hpos : ¬Int64.ofInt (lower.toInt + k) - lower < 0 := by
    rw [Int64.lt_iff_toInt_lt, hdistance, Int64.toInt_zero]
    omega
  unfold offset
  dsimp only
  rw [hupper, if_neg (by omega), if_neg hpos, hdistance, Int.toNat_natCast]

theorem itemAt_eq_ok {items : List Value} {k : Nat} :
    itemAt items k = .ok x ↔ items[k]? = some x := by
  unfold itemAt
  split
  · next h => simp [h]
  · next h => simp [h]

theorem elementAt_eq_ok {index : Int} : v.elementAt index = .ok x ↔ ∃ lower items, ∃ k : Nat,
    v = array lower items ∧ offset lower items.length index = .ok k ∧ items[k]? = some x := by
  constructor
  · intro h
    cases v with
    | array lower items =>
      obtain ⟨k, hk, hitem⟩ := bind_eq_ok.mp h
      exact ⟨lower, items, k, rfl, hk, itemAt_eq_ok.mp hitem⟩
    | _ => cases h
  · rintro ⟨lower, items, k, rfl, hindex, hitem⟩
    exact bind_eq_ok.mpr ⟨k, hindex, itemAt_eq_ok.mpr hitem⟩

theorem charOf_eq_ok {index : Int} {c : Char} : v.charOf index = .ok c ↔
    ∃ s, ∃ k : Nat, v = string s ∧ offset 1 s.toList.length index = .ok k ∧
      s.toList[k]? = some c := by
  constructor
  · intro h
    obtain ⟨s, hs, hrest⟩ := bind_eq_ok.mp h
    obtain ⟨k, hk, hchar⟩ := bind_eq_ok.mp hrest
    cases v <;> cases hs
    refine ⟨_, k, rfl, hk, ?_⟩
    split at hchar <;> cases hchar
    assumption
  · rintro ⟨s, k, rfl, hindex, hchar⟩
    simp only [charOf, asString, hindex, Bind.bind, Except.bind, hchar]

/-- An element that is replaced does not matter at other indices. -/
theorem elementAt_set {lower : Int64} {index : Int} {k : Nat} (items : List Value) (x : Value)
    (h : offset lower items.length index ≠ .ok k) :
    (array lower (items.set k x)).elementAt index = (array lower items).elementAt index := by
  simp only [elementAt, List.length_set, Bind.bind, Except.bind]
  cases hoffset : offset lower items.length index with
  | error f => rfl
  | ok j =>
    have hne : k ≠ j := by
      rintro rfl
      exact h hoffset
    simp only [itemAt, List.getElem?_set_ne hne]

/-- A character that is replaced does not matter at other indices. -/
theorem charOf_set {index : Int} {k : Nat} (s : String) (c : Char)
    (h : offset 1 s.toList.length index ≠ .ok k) :
    (string (String.ofList (s.toList.set k c))).charOf index = (string s).charOf index := by
  simp only [charOf, asString, String.toList_ofList, List.length_set, Bind.bind, Except.bind]
  cases hoffset : offset 1 s.toList.length index with
  | error f => rfl
  | ok j =>
    have hne : k ≠ j := by
      rintro rfl
      exact h hoffset
    simp only [List.getElem?_set_ne hne]

/-! ### Whole paths -/

namespace DiffersAt

/-- A part that is replaced can be put back. -/
theorem symm (h : DiffersAt x y path v w) : DiffersAt y x path w v := by
  induction h with
  | whole => exact .whole
  | @element lower index items k v w path hindex hitem _ ih =>
    obtain ⟨hk, hv⟩ := List.getElem?_eq_some_iff.mp hitem
    have hback : (items.set k w).set k v = items := by
      rw [List.set_set, ← hv, List.set_getElem_self]
    have hlength : offset lower (items.set k w).length index = .ok k := by
      rwa [List.length_set]
    have h := element hlength (List.getElem?_set_self hk) ih
    rwa [hback] at h
  | @character index s k c d hindex hchar hx hy =>
    obtain ⟨hk, hc⟩ := List.getElem?_eq_some_iff.mp hchar
    have hlist : (String.ofList (s.toList.set k d)).toList = s.toList.set k d := String.toList_ofList
    have hback : String.ofList ((String.ofList (s.toList.set k d)).toList.set k c) = s := by
      rw [hlist, List.set_set, ← hc, List.set_getElem_self, String.ofList_toList]
    have hnew : (String.ofList (s.toList.set k d)).toList[k]? = some d := by
      rw [hlist]
      exact List.getElem?_set_self hk
    have hlength : offset 1 (String.ofList (s.toList.set k d)).toList.length index = .ok k := by
      rwa [hlist, List.length_set]
    have h := character hlength hnew hy hx
    rwa [hback] at h

/-- The part of the first value is found at the end of the path. -/
theorem follow (h : DiffersAt x y path v w) : v.follow path = .ok x := by
  induction h with
  | whole => rfl
  | element hindex hitem _ ih =>
    rw [Value.follow, elementAt_eq_ok.mpr ⟨_, _, _, rfl, hindex, hitem⟩]
    exact ih
  | character hindex hchar hx _ =>
    rw [Value.follow, charOf_eq_ok.mpr ⟨_, _, rfl, hindex, hchar⟩, hx]
    rfl

/-- Values that differ at the end of one path are read alike on a path that diverges from it. -/
theorem follow_of_diverge {path' : List Step} (h : DiffersAt x y path v w)
    (hd : Diverge path path') : w.follow path' = v.follow path' := by
  induction h generalizing path' with
  | whole => cases hd
  | @element lower index items k v w path hindex hitem _ ih =>
    cases hd with
    | @here _ step _ path' hne =>
      cases step with
      | element index' =>
        have hindex' : offset lower items.length index' ≠ .ok k :=
          fun he => hne (by rw [offset_inj hindex he])
        simp only [Value.follow, elementAt_set items w hindex']
      | charAt index' => rfl
    | later hd =>
      obtain ⟨hk, -⟩ := List.getElem?_eq_some_iff.mp hitem
      have hnew : (array lower (items.set k w)).elementAt index = .ok w :=
        elementAt_eq_ok.mpr ⟨_, _, k, rfl, by rwa [List.length_set], List.getElem?_set_self hk⟩
      simp only [Value.follow, elementAt_eq_ok.mpr ⟨_, _, _, rfl, hindex, hitem⟩, hnew]
      exact ih hd
  | @character index s k c d hindex hchar _ _ =>
    cases hd with
    | @here _ step _ path' hne =>
      cases step with
      | element index' => rfl
      | charAt index' =>
        have hindex' : offset 1 s.toList.length index' ≠ .ok k :=
          fun he => hne (by rw [offset_inj hindex he])
        simp only [Value.follow, charOf_set s d hindex']
    | later hd => cases hd

/-- On the way to the parts, the bounds of arrays and the lengths of strings are the same. -/
theorem sameBounds {front : List Step} (h : DiffersAt x y path v w) (hfront : front <+: path)
    (hne : front ≠ path) :
    ∃ a b, v.follow front = .ok a ∧ w.follow front = .ok b ∧ SameBounds a b := by
  induction h generalizing front with
  | whole => exact absurd (List.prefix_nil.mp hfront) hne
  | @element lower index items k v w path hindex hitem _ ih =>
    rcases List.prefix_cons_iff.mp hfront with rfl | ⟨front, rfl, htail⟩
    · exact ⟨_, _, rfl, rfl, .array List.length_set⟩
    · obtain ⟨hk, -⟩ := List.getElem?_eq_some_iff.mp hitem
      have hnew : (array lower (items.set k w)).elementAt index = .ok w :=
        elementAt_eq_ok.mpr ⟨_, _, k, rfl, by rwa [List.length_set], List.getElem?_set_self hk⟩
      simp only [Value.follow, elementAt_eq_ok.mpr ⟨_, _, _, rfl, hindex, hitem⟩, hnew]
      exact ih htail fun he => hne (by rw [he])
  | character =>
    rcases List.prefix_cons_iff.mp hfront with rfl | ⟨front, rfl, htail⟩
    · exact ⟨_, _, rfl, rfl, .string (by simp [String.length_toList])⟩
    · obtain rfl := List.prefix_nil.mp htail
      exact absurd rfl hne

/-- What can be read at the end of a path is a part that stands for itself there. -/
theorem of_follow (h : v.follow path = .ok x) (hpath : CharLast path) : DiffersAt x x path v v := by
  induction path generalizing v with
  | nil =>
    cases h
    exact .whole
  | cons step path ih =>
    cases step with
    | element index =>
      obtain ⟨item, hat, hrest⟩ := bind_eq_ok.mp h
      obtain ⟨lower, items, k, rfl, hindex, hitem⟩ := elementAt_eq_ok.mp hat
      obtain ⟨hk, hv⟩ := List.getElem?_eq_some_iff.mp hitem
      have hself : items.set k item = items := by rw [← hv, List.set_getElem_self]
      have hdiffers := element hindex hitem (ih hrest hpath.tail)
      rwa [hself] at hdiffers
    | charAt index =>
      obtain rfl := hpath.eq_nil
      obtain ⟨c, hat, hx⟩ := bind_eq_ok.mp h
      cases hx
      obtain ⟨s, k, rfl, hindex, hchar⟩ := charOf_eq_ok.mp hat
      obtain ⟨hk, hc⟩ := List.getElem?_eq_some_iff.mp hchar
      have hself : String.ofList (s.toList.set k c) = s := by
        rw [← hc, List.set_getElem_self, String.ofList_toList]
      have hdiffers : DiffersAt (char c) (char c) [.charAt index] _ _ :=
        character hindex hchar rfl rfl
      rwa [hself] at hdiffers

/-- The part of the second value can stand at the end of the path. -/
theorem standsAt (h : DiffersAt x y path v w) : y.StandsAt path := by
  induction h with
  | whole => intro index hlast; cases hlast
  | @element _ _ _ _ _ _ path _ _ _ ih =>
    cases path with
    | nil => intro index hlast; cases hlast
    | cons step path =>
      intro index hlast
      rw [List.getLast?_cons_cons] at hlast
      exact ih index hlast
  | character _ _ _ hy => exact fun _ _ => ⟨_, hy⟩

/-- In place of a part there can be any other value that can stand there. -/
theorem replace {z : Value} (h : DiffersAt x y path v w) (hz : z.StandsAt path) :
    ∃ w', DiffersAt x z path v w' := by
  induction h with
  | whole => exact ⟨z, .whole⟩
  | @element _ _ _ _ _ _ path hindex hitem _ ih =>
    have htail : z.StandsAt path := by
      cases path with
      | nil => intro index hlast; cases hlast
      | cons step path => exact hz.tail
    obtain ⟨w', hw'⟩ := ih htail
    exact ⟨_, .element hindex hitem hw'⟩
  | character hindex hchar hx _ =>
    obtain ⟨d, rfl⟩ := hz _ rfl
    exact ⟨_, .character hindex hchar hx rfl⟩

end DiffersAt

/-- A value is revised by replacing the part at the end of a path by what is made of it. -/
theorem revise_eq_ok {f : Value → Except Fault Value} :
    v.revise f path = .ok w ↔ ∃ x y, DiffersAt x y path v w ∧ f x = .ok y := by
  constructor
  · intro h
    induction path generalizing v w with
    | nil => exact ⟨v, w, .whole, h⟩
    | cons step path ih =>
      cases step with
      | element index =>
        cases v with
        | array lower items =>
          obtain ⟨k, hk, hrest⟩ := bind_eq_ok.mp h
          obtain ⟨item, hitem, hrest⟩ := bind_eq_ok.mp hrest
          obtain ⟨new, hnew, hw⟩ := bind_eq_ok.mp hrest
          cases hw
          obtain ⟨x, y, hdiffers, hf⟩ := ih hnew
          exact ⟨x, y, .element hk (itemAt_eq_ok.mp hitem) hdiffers, hf⟩
        | _ => cases h
      | charAt index =>
        cases path with
        | nil =>
          obtain ⟨c, hc, h₁⟩ := bind_eq_ok.mp h
          obtain ⟨y, hf, h₂⟩ := bind_eq_ok.mp h₁
          obtain ⟨d, hd, h₃⟩ := bind_eq_ok.mp h₂
          obtain ⟨s, k, rfl, hindex, hchar⟩ := charOf_eq_ok.mp hc
          obtain ⟨t, ht, h₄⟩ := bind_eq_ok.mp h₃
          cases ht
          obtain ⟨k', hk', hw⟩ := bind_eq_ok.mp h₄
          cases hw
          cases y <;> cases hd
          obtain rfl : k' = k := Except.ok.inj (hk'.symm.trans hindex)
          exact ⟨_, _, .character hindex hchar rfl rfl, hf⟩
        | cons next path => cases h
  · rintro ⟨x, y, h, hf⟩
    induction h with
    | whole => exact hf
    | element hindex hitem _ ih =>
      simp only [revise, hindex, itemAt_eq_ok.mpr hitem, Bind.bind, Except.bind, ih]
      rfl
    | @character index s k c d hindex hchar hx hy =>
      subst hx hy
      simp only [revise, charOf_eq_ok.mpr ⟨_, _, rfl, hindex, hchar⟩, hf, asChar, asString,
        hindex, Bind.bind, Except.bind]
      rfl

/-- What cannot be read cannot be revised, for the same reason. -/
theorem revise_eq_error {f : Value → Except Fault Value} {e : Fault} (hpath : CharLast path)
    (h : v.follow path = .error e) : v.revise f path = .error e := by
  induction path generalizing v with
  | nil => cases h
  | cons step path ih =>
    cases step with
    | element index =>
      cases v with
      | array lower items =>
        simp only [Value.follow, elementAt, revise, Bind.bind, Except.bind] at h ⊢
        cases hoffset : offset lower items.length index with
        | error e' =>
          rw [hoffset] at h
          exact h
        | ok k =>
          rw [hoffset] at h
          dsimp only at h ⊢
          cases hitem : itemAt items k with
          | error e' =>
            rw [hitem] at h
            exact h
          | ok item =>
            rw [hitem] at h
            dsimp only at h ⊢
            rw [ih hpath.tail h]
      | _ => exact h
    | charAt index =>
      obtain rfl := hpath.eq_nil
      simp only [Value.follow, revise, Bind.bind, Except.bind] at h ⊢
      cases hchar : v.charOf index with
      | error e' =>
        rw [hchar] at h
        exact h
      | ok c =>
        rw [hchar] at h
        cases h

end Value

/-- References to storage that does not overlap: to different cells, or along paths that diverge. -/
def Ref.Apart (r r' : Ref) : Prop := r.cell ≠ r'.cell ∨ Step.Diverge r.path r'.path

namespace Store

open Value Step

variable {s s' : Store} {r : Ref} {v x root : Value}

theorem get_eq_ok : s.get r = .ok x ↔
    ∃ root, s.cells[r.cell]? = some (some root) ∧ root.follow r.path = .ok x := by
  unfold get
  constructor
  · intro h
    split at h
    · next root hroot => exact ⟨root, hroot, h⟩
    · cases h
  · rintro ⟨root, hroot, h⟩
    rw [hroot]
    exact h

/-- A write leads from one value of a cell to another one that differs from it in the part that is written. -/
theorem set_eq_ok : s.set r v = .ok s' ↔ ∃ root x new, s.cells[r.cell]? = some (some root) ∧
    DiffersAt x v r.path root new ∧ s' = s.put r.cell new := by
  unfold set revised
  constructor
  · intro h
    obtain ⟨new, hnew, hput⟩ := bind_eq_ok.mp h
    cases hput
    split at hnew
    · next root hroot =>
      obtain ⟨x, y, hdiffers, hy⟩ := revise_eq_ok.mp hnew
      cases hy
      exact ⟨root, x, new, hroot, hdiffers, rfl⟩
    · cases hnew
  · rintro ⟨root, x, new, hroot, hdiffers, rfl⟩
    rw [hroot]
    exact bind_eq_ok.mpr ⟨new, revise_eq_ok.mpr ⟨x, v, hdiffers, rfl⟩, rfl⟩

theorem cell_put {cell : Nat} {old : Option Value} (h : s.cells[cell]? = some old) (v : Value) :
    (s.put cell v).cells[cell]? = some (some v) := by
  obtain ⟨hlt, -⟩ := Array.getElem?_eq_some_iff.mp h
  simp [put, hlt]

theorem get_put_of_ne {cell : Nat} (h : cell ≠ r.cell) (v : Value) :
    (s.put cell v).get r = s.get r := by
  simp [get, put, h]

theorem put_self {cell : Nat} (h : s.cells[cell]? = some (some v)) : s.put cell v = s := by
  obtain ⟨hlt, he⟩ := Array.getElem?_eq_some_iff.mp h
  rw [put, ← he]
  simp [Array.setIfInBounds, hlt]

/-- What does not overlap with the part that is written is read as before. -/
theorem get_of_apart {r' : Ref} (h : s.set r v = .ok s') (hapart : r.Apart r') :
    s'.get r' = s.get r' := by
  obtain ⟨root, x, new, hroot, hdiffers, rfl⟩ := set_eq_ok.mp h
  by_cases hcell : r.cell = r'.cell
  · have hpath : Diverge r.path r'.path := hapart.resolve_left fun hne => hne hcell
    have hnew := cell_put hroot new
    rw [hcell] at hroot hnew ⊢
    simp only [get, hroot, hnew]
    exact hdiffers.follow_of_diverge hpath
  · exact get_put_of_ne hcell new

end Store

theorem Run.set_eq (r : Ref) (v : Value) (m : Machine) : Run.set r v m =
    match m.world.store.set r v with
    | .ok store => .ok () { m with world := { m.world with store } }
    | .error f => .error (.fault f none) m := by
  unfold Run.set Store.set
  cases m.world.store.revised r fun _ => .ok v <;> rfl

theorem Host.set_eq (r : Ref) (v : Value) (w : World) : Host.set r v w =
    match w.store.set r v with
    | .ok store => .ok () { w with store }
    | .error f => .error (.fault f) w := by
  unfold Host.set Host.update Store.set
  cases w.store.revised r fun _ => .ok v <;> rfl

namespace Store

open Value Step

/-- Storage can be written just where it can be read, with any value that can stand there. A write is read
back, leaves alone what does not overlap with it, and keeps the bounds of all arrays and strings that it goes
through. Writing what is there changes nothing, and a write that fails leaves all storage as it is. -/
theorem set_lawful (s : Store) {r : Ref} (hr : CharLast r.path) (v : Value) :
    ((∃ s', s.set r v = .ok s') ↔ (∃ old, s.get r = .ok old) ∧ v.StandsAt r.path) ∧
    (∀ s', s.set r v = .ok s' → s'.get r = .ok v ∧ (∀ r', r.Apart r' → s'.get r' = s.get r') ∧
      ∀ front, front <+: r.path → front ≠ r.path → ∃ before after,
        s.get ⟨r.cell, front⟩ = .ok before ∧ s'.get ⟨r.cell, front⟩ = .ok after ∧
          before.SameBounds after) ∧
    (s.get r = .ok v → s.set r v = .ok s) ∧
    ∀ f, s.set r v = .error f →
      (∀ m : Machine, m.world.store = s → Run.set r v m = .error (.fault f none) m) ∧
      ∀ w : World, w.store = s → Host.set r v w = .error (.fault f) w := by
  refine ⟨⟨?succeeds, ?readable⟩, ?written, ?same, ?failed⟩
  case succeeds =>
    rintro ⟨s', hset⟩
    obtain ⟨root, old, new, hroot, hdiffers, -⟩ := set_eq_ok.mp hset
    exact ⟨⟨old, get_eq_ok.mpr ⟨root, hroot, hdiffers.follow⟩⟩, hdiffers.standsAt⟩
  case readable =>
    rintro ⟨⟨old, hget⟩, hv⟩
    obtain ⟨root, hroot, hfollow⟩ := get_eq_ok.mp hget
    obtain ⟨new, hnew⟩ := (DiffersAt.of_follow hfollow hr).replace hv
    exact ⟨_, set_eq_ok.mpr ⟨root, old, new, hroot, hnew, rfl⟩⟩
  case written =>
    intro s' hset
    have hothers : ∀ r', r.Apart r' → s'.get r' = s.get r' := fun r' => get_of_apart hset
    obtain ⟨root, old, new, hroot, hdiffers, rfl⟩ := set_eq_ok.mp hset
    have hcell := cell_put hroot new
    refine ⟨get_eq_ok.mpr ⟨new, hcell, hdiffers.symm.follow⟩, hothers, ?_⟩
    intro front hfront hne
    obtain ⟨before, after, hbefore, hafter, hsame⟩ := hdiffers.sameBounds hfront hne
    exact ⟨before, after, get_eq_ok.mpr ⟨root, hroot, hbefore⟩,
      get_eq_ok.mpr ⟨new, hcell, hafter⟩, hsame⟩
  case same =>
    intro hget
    obtain ⟨root, hroot, hfollow⟩ := get_eq_ok.mp hget
    exact set_eq_ok.mpr ⟨root, v, root, hroot, .of_follow hfollow hr, (put_self hroot).symm⟩
  case failed =>
    rintro f hset
    constructor
    · rintro m rfl
      rw [Run.set_eq, hset]
    · rintro w rfl
      rw [Host.set_eq, hset]

/-- A character of the second string of an array is written, which counts its elements from five. -/
theorem set_lawful_nested :
    let s : Store := ⟨#[some (.array 5 [.string "sea", .string "cat"])]⟩
    let r : Ref := ⟨0, [.element 6, .charAt 3]⟩
    CharLast r.path ∧ ∃ s', s.set r (.char 'r') = .ok s' ∧ s'.get r = .ok (.char 'r') ∧
      s'.get ⟨0, [.element 5]⟩ = .ok (.string "sea") ∧
      ∃ after, s'.get ⟨0, [.element 6]⟩ = .ok after ∧ (string "cat").SameBounds after := by
  intro s r
  have hr : CharLast r.path := by
    intro index
    simp [r]
  obtain ⟨hsucceeds, hwritten, -, -⟩ := s.set_lawful hr (.char 'r')
  obtain ⟨s', hset⟩ := hsucceeds.mpr ⟨⟨.char 't', rfl⟩, fun _ _ => ⟨'r', rfl⟩⟩
  obtain ⟨hget, hapart, hbounds⟩ := hwritten s' hset
  have hother : r.Apart ⟨0, [.element 5]⟩ := .inr (.here (by decide))
  obtain ⟨before, after, hbefore, hafter, hsame⟩ :=
    hbounds [.element 6] ⟨[.charAt 3], rfl⟩ (by simp [r])
  cases hbefore
  exact ⟨hr, s', hset, hget, hapart _ hother, after, hafter, hsame⟩

end Store

end Pascal
