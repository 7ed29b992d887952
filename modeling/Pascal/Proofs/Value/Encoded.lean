import Mathlib.Tactic.SplitIfs
import Pascal.Value.Operator

/-!
# Strings and their bytes

Strings are ordered by the codes of their characters. The bytes of their UTF-8 encodings have the same
order: of two characters the one of the greater code has the greater byte where their encodings first
differ, and no encoding of a character begins that of another one.

A text may be looked for among the characters of another one or among their bytes: an occurrence of the bytes
starts where a character starts, since no byte inside an encoding is one with which an encoding begins. So the
first occurrences are at the same place, once counted in characters and once in bytes.
-/

namespace Pascal

/-- What keeps and reflects `<` keeps how two values are ordered. -/
theorem Value.order_congr {α β : Type} [LT α] [DecidableRel (α := α) (· < ·)] [LT β]
    [DecidableRel (α := β) (· < ·)] (f : α → β) (hf : ∀ a b, f a < f b ↔ a < b) (a b : α) :
    order (f a) (f b) = order a b := by
  simp only [order, hf]

/-- The bytes that encode a string. -/
def encoded (s : String) : List UInt8 := s.toUTF8.data.toList

theorem encoded_eq (s : String) : encoded s = s.toList.flatMap String.utf8EncodeChar := by
  have hutf8 : s.toUTF8 = s.toList.utf8Encode := by simp
  rw [encoded, hutf8, List.utf8Encode, List.data_toByteArray]

/-- The characters decide at the first byte in which they differ, whatever follows them. -/
theorem utf8EncodeChar_append_lt {c d : Char} (h : c < d) (x y : List UInt8) :
    String.utf8EncodeChar c ++ x < String.utf8EncodeChar d ++ y := by
  have hcodes : c.val.toNat < d.val.toNat := h
  have hlast : d.val.toNat < 0x110000 := by
    have hd := d.valid
    simp only [UInt32.isValidChar, Nat.isValidChar] at hd
    omega
  simp only [String.utf8EncodeChar]
  generalize c.val.toNat = m at hcodes
  generalize d.val.toNat = n at hcodes hlast
  -- One case for each pair of lengths. No byte wraps around, which leaves digits of the codes.
  split_ifs <;>
    simp only [List.cons_append, List.nil_append, List.cons_lt_cons_iff, UInt8.lt_iff_toNat_lt,
      ← UInt8.toNat_inj, UInt8.toNat_ofNat'] <;>
    simp (disch := omega) only [Nat.mod_eq_of_lt] <;>
    omega

theorem append_lt_append_left {α : Type} [LT α] [Std.Irrefl (α := α) (· < ·)] (l x y : List α) :
    l ++ x < l ++ y ↔ x < y := by
  induction l with
  | nil => rfl
  | cons a l ih =>
    have hirrefl : ¬ a < a := Std.Irrefl.irrefl a
    simp only [List.cons_append, List.cons_lt_cons_iff, hirrefl, ih, true_and, false_or]

theorem flatMap_utf8EncodeChar_lt (s t : List Char) :
    s.flatMap String.utf8EncodeChar < t.flatMap String.utf8EncodeChar ↔ s < t := by
  induction s generalizing t with
  | nil =>
    cases t with
    | nil => simp
    | cons d t =>
      obtain ⟨b, bs, hd⟩ := List.exists_cons_of_ne_nil (String.utf8EncodeChar_ne_nil (c := d))
      simp [hd]
  | cons c s ih =>
    cases t with
    | nil => simp
    | cons d t =>
      rw [List.flatMap_cons, List.flatMap_cons, List.cons_lt_cons_iff]
      rcases Std.lt_trichotomy c d with hlt | rfl | hgt
      · exact iff_of_true (utf8EncodeChar_append_lt hlt _ _) (.inl hlt)
      · rw [append_lt_append_left, ih]
        simp
      · refine iff_of_false (List.lt_asymm (utf8EncodeChar_append_lt hgt _ _)) ?_
        rintro (hlt | ⟨rfl, -⟩)
        · exact Char.lt_asymm hgt hlt
        · exact Char.lt_irrefl _ hgt

/-- Strings have the order of their bytes. -/
theorem order_encoded (s t : String) : Value.order (encoded s) (encoded t) = Value.order s t := by
  refine Value.order_congr encoded (fun s t => ?_) s t
  rw [encoded_eq, encoded_eq, flatMap_utf8EncodeChar_lt, String.lt_iff]

/-! ## First occurrences -/

/-- The first place where one list stands in another one. -/
structure FirstAt {α : Type} (needle text : List α) (k : Nat) : Prop where
  here : needle <+: text.drop k
  before : ∀ j < k, ¬ needle <+: text.drop j

namespace FirstAt

variable {α : Type} {needle text : List α} {c : α} {j k : Nat}

@[simp] theorem zero_iff : FirstAt needle text 0 ↔ needle <+: text :=
  ⟨fun h => h.here, fun h => ⟨h, by simp⟩⟩

theorem succ_iff :
    FirstAt needle (c :: text) (k + 1) ↔ ¬ needle <+: c :: text ∧ FirstAt needle text k := by
  constructor
  · rintro ⟨hhere, hbefore⟩
    exact ⟨hbefore 0 k.succ_pos, hhere, fun j hj => hbefore (j + 1) (Nat.succ_lt_succ hj)⟩
  · rintro ⟨hnot, hhere, hbefore⟩
    refine ⟨hhere, fun j hj => ?_⟩
    cases j with
    | zero => exact hnot
    | succ j => exact hbefore j (Nat.lt_of_succ_lt_succ hj)

theorem unique (h : FirstAt needle text j) (h' : FirstAt needle text k) : j = k := by
  rcases Nat.lt_trichotomy j k with hlt | heq | hgt
  · exact absurd h.here (h'.before j hlt)
  · exact heq
  · exact absurd h'.here (h.before k hgt)

/-- Nothing is looked for behind the end. -/
theorem le_length (h : FirstAt needle text k) : k ≤ text.length := by
  apply Nat.le_of_not_lt
  intro hlt
  have hnil : text.drop k = text.drop text.length := by
    rw [List.drop_length, List.drop_eq_nil_of_le (Nat.le_of_lt hlt)]
  exact h.before text.length hlt (hnil ▸ h.here)

end FirstAt

open String (utf8EncodeChar utf8EncodeChar_ne_nil)

variable {s t : List Char} {o : Nat}

/-- The bytes that encode characters. -/
def bytes (s : List Char) : List UInt8 := s.flatMap utf8EncodeChar

@[simp] theorem bytes_nil : bytes [] = [] := rfl

theorem bytes_cons (c : Char) (s : List Char) : bytes (c :: s) = utf8EncodeChar c ++ bytes s :=
  List.flatMap_cons

theorem bytes_append (s t : List Char) : bytes (s ++ t) = bytes s ++ bytes t :=
  List.flatMap_append

/-- No encoding of a character is the beginning of another one. -/
theorem utf8EncodeChar_append_inj {c d : Char} {x y : List UInt8}
    (h : utf8EncodeChar c ++ x = utf8EncodeChar d ++ y) : c = d ∧ x = y := by
  rcases Std.lt_trichotomy c d with hlt | rfl | hgt
  · exact absurd (h ▸ utf8EncodeChar_append_lt hlt x y) (List.lt_irrefl _)
  · exact ⟨rfl, List.append_cancel_left h⟩
  · exact absurd (h ▸ utf8EncodeChar_append_lt hgt y x) (List.lt_irrefl _)

theorem bytes_prefix_iff : bytes t <+: bytes s ↔ t <+: s := by
  constructor
  · intro h
    induction t generalizing s with
    | nil => exact List.nil_prefix
    | cons d t ih =>
      cases s with
      | nil => simp [bytes_cons, utf8EncodeChar_ne_nil] at h
      | cons c s =>
        obtain ⟨rest, h⟩ := h
        rw [bytes_cons, bytes_cons, List.append_assoc] at h
        obtain ⟨rfl, hrest⟩ := utf8EncodeChar_append_inj h
        exact (List.prefix_cons_inj d).mpr (ih ⟨rest, hrest⟩)
  · rintro ⟨rest, rfl⟩
    exact ⟨bytes rest, (bytes_append t rest).symm⟩

/-- No byte inside the encoding of a character is one with which an encoding begins. -/
theorem eq_zero_of_begins {c d : Char} {x y : List UInt8}
    (h : utf8EncodeChar d ++ y <+: (utf8EncodeChar c ++ x).drop o)
    (ho : o < (utf8EncodeChar c).length) : o = 0 := by
  have hd : 0 < (utf8EncodeChar d).length := List.length_pos_iff.mpr utf8EncodeChar_ne_nil
  have hhead : (utf8EncodeChar c)[o] = (utf8EncodeChar d)[0] := by
    obtain ⟨rest, hrest⟩ := h
    rw [List.append_assoc] at hrest
    apply Option.some.inj
    calc some (utf8EncodeChar c)[o]
      _ = ((utf8EncodeChar c ++ x).drop o)[0]? := by
        rw [List.getElem?_drop, Nat.add_zero, List.getElem?_append_left ho, List.getElem?_eq_getElem ho]
      _ = some (utf8EncodeChar d)[0] := by
        rw [← hrest, List.getElem?_append_left hd, List.getElem?_eq_getElem hd]
  have hfirst : (utf8EncodeChar c)[o].IsUTF8FirstByte :=
    hhead ▸ UInt8.isUTF8FirstByte_getElem_zero_utf8EncodeChar
  exact UInt8.isUTF8FirstByte_getElem_utf8EncodeChar.mp hfirst

/-- The bytes of a text stand only where a character starts. -/
theorem exists_append_of_bytes_prefix (hne : t ≠ []) (h : bytes t <+: (bytes s).drop o) :
    ∃ u w, s = u ++ w ∧ (bytes u).length = o := by
  obtain ⟨d, t, rfl⟩ := List.exists_cons_of_ne_nil hne
  induction s generalizing o with
  | nil => simp [bytes_cons, utf8EncodeChar_ne_nil] at h
  | cons c s ih =>
    rw [bytes_cons, bytes_cons] at h
    rcases Nat.lt_or_ge o (utf8EncodeChar c).length with ho | ho
    · -- Inside the first encoding, only its beginning is possible.
      exact ⟨[], c :: s, rfl, (eq_zero_of_begins h ho).symm⟩
    · rw [List.drop_append, List.drop_eq_nil_of_le ho, List.nil_append, ← bytes_cons] at h
      obtain ⟨u, w, rfl, hu⟩ := ih h
      refine ⟨c :: u, w, rfl, ?_⟩
      rw [bytes_cons, List.length_append, hu]
      omega

theorem bytes_prefix_drop_iff {u w : List Char} :
    bytes t <+: (bytes (u ++ w)).drop (bytes u).length ↔ t <+: (u ++ w).drop u.length := by
  rw [bytes_append, List.drop_left, List.drop_left, bytes_prefix_iff]

/-- Of two beginnings of a text, the one with more characters has more bytes. -/
theorem length_bytes_lt_iff {u w u' w' : List Char} (h : u ++ w = u' ++ w') :
    (bytes u).length < (bytes u').length ↔ u.length < u'.length := by
  have hpos (v : List Char) : 0 < (bytes v).length ↔ 0 < v.length := by
    rw [List.length_pos_iff, List.length_pos_iff]
    cases v <;> simp [bytes_cons, utf8EncodeChar_ne_nil]
  rcases List.append_eq_append_iff.mp h with ⟨v, rfl, -⟩ | ⟨v, rfl, -⟩
  · simpa [bytes_append] using hpos v
  · simp only [bytes_append, List.length_append]
    omega

/-- The first occurrence of the bytes is that of the characters. -/
theorem firstAt_bytes_iff : FirstAt (bytes t) (bytes s) o ↔
    ∃ u w, s = u ++ w ∧ (bytes u).length = o ∧ FirstAt t s u.length := by
  -- A text without characters stands at once. It has no bytes that would tell where a character starts.
  by_cases hne : t = []
  · subst hne
    have hzero {α : Type} (l : List α) : FirstAt [] l 0 := FirstAt.zero_iff.mpr List.nil_prefix
    constructor
    · intro h
      exact ⟨[], s, rfl, (hzero (bytes s)).unique h, hzero s⟩
    · rintro ⟨u, w, -, rfl, h⟩
      obtain rfl := List.eq_nil_of_length_eq_zero (h.unique (hzero s))
      exact hzero (bytes s)
  · constructor
    · rintro ⟨hhere, hbefore⟩
      obtain ⟨u, w, rfl, rfl⟩ := exists_append_of_bytes_prefix hne hhere
      refine ⟨u, w, rfl, rfl, bytes_prefix_drop_iff.mp hhere, fun j hj hstands => ?_⟩
      have hsplit := List.take_append_drop j (u ++ w)
      have hlength : ((u ++ w).take j).length = j := by
        rw [List.length_take, List.length_append]
        omega
      refine hbefore _ ((length_bytes_lt_iff hsplit).mpr (hlength.symm ▸ hj)) ?_
      have hbytes := bytes_prefix_drop_iff (t := t) (u := (u ++ w).take j) (w := (u ++ w).drop j)
      rw [hsplit, hlength] at hbytes
      exact hbytes.mpr hstands
    · rintro ⟨u, w, rfl, rfl, hhere, hbefore⟩
      refine ⟨bytes_prefix_drop_iff.mpr hhere, fun j hj hstands => ?_⟩
      obtain ⟨u', w', hsplit, rfl⟩ := exists_append_of_bytes_prefix hne hstands
      refine hbefore u'.length ((length_bytes_lt_iff hsplit.symm).mp hj) ?_
      rw [hsplit] at hstands ⊢
      exact bytes_prefix_drop_iff.mp hstands

example : FirstAt ['ï'] ['ü', 'n', 'ï'] 2 ∧ FirstAt (bytes ['ï']) (bytes ['ü', 'n', 'ï']) 3 :=
  ⟨⟨by decide, by decide⟩, by decide, by decide⟩

end Pascal
