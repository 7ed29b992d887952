import Pascal.Proofs.Library.Unambiguous
import Pascal.Proofs.Typing.HasType
import Pascal.Proofs.Value.Encoded

/-!
# Parts of strings

`length`, `copy` and `pos` count the characters of a string, the first one as one, and so they agree with
each other: a string is put together again from the two parts that `copy` cuts it into, and what `pos` finds
is what `copy` gives there, for the first time. The place is the one where the bytes are found.
-/

namespace Pascal.Library

open Signature

variable {needle text : List Char} {c : Char} {s t : String} {k : Nat}

/-! ## Where a text is found -/

theorem occurrence?_eq_zero (h : needle <+: text) : occurrence? needle text = some 0 := by
  rw [occurrence?.eq_def, if_pos (List.isPrefixOf_iff_prefix.mpr h)]

theorem occurrence?_cons (h : ¬ needle <+: c :: text) :
    occurrence? needle (c :: text) = (occurrence? needle text).map (· + 1) := by
  rw [occurrence?, if_neg (mt List.isPrefixOf_iff_prefix.mp h)]

/-- What is found is the first occurrence. -/
theorem occurrence?_eq_some : occurrence? needle text = some k ↔ FirstAt needle text k := by
  have hzero {text : List Char} (h : needle <+: text) {k : Nat} :
      occurrence? needle text = some k ↔ FirstAt needle text k := by
    have hfirst := FirstAt.zero_iff.mpr h
    rw [occurrence?_eq_zero h]
    constructor
    · rintro ⟨⟩
      exact hfirst
    · intro hk
      rw [hfirst.unique hk]
  induction text generalizing k with
  | nil =>
    by_cases h : needle <+: []
    · exact hzero h
    · refine iff_of_false ?_ fun hk => h (by simpa using hk.here)
      rw [occurrence?, if_neg (mt List.isPrefixOf_iff_prefix.mp h)]
      simp
  | cons c text ih =>
    by_cases h : needle <+: c :: text
    · exact hzero h
    · rw [occurrence?_cons h]
      cases k with
      | zero => simp [h]
      | succ k => simp [FirstAt.succ_iff, h, ih]

theorem occurrence?_eq_none : occurrence? needle text = none ↔ ¬ needle <:+: text := by
  induction text with
  | nil =>
    by_cases h : needle = []
    · simp [h, occurrence?]
    · simp [h, occurrence?]
  | cons c text ih =>
    rw [List.infix_cons_iff, not_or, ← ih]
    by_cases h : needle <+: c :: text
    · simp [occurrence?_eq_zero h, h]
    · simp [occurrence?_cons h, h]

/-! ## Calls -/

/-- A call of a standard routine gives a value and changes nothing. The arguments are values of basic types,
and each of them is passed as a value of its own type. -/
def CallGives (name : String) (args : List Value) (v : Value) : Prop :=
  ∃ (types : List Basic) (r : Routine) (cost : Nat), args.map Value.basic? = types.map some ∧
    choose (routinesNamed name) (types.map fun b => ⟨.basic b, false⟩) =
      .ok (r, ⟨cost, types.map fun b => .value (.basic b)⟩) ∧
    ∀ w, r.run args w = .ok (some v) w

theorem integerResult_toInt (n : Int32) : integerResult n.toInt = pure (.integer n) := by
  have hrange : -0x80000000 ≤ n.toInt ∧ n.toInt < 0x80000000 := ⟨n.le_toInt, n.toInt_lt⟩
  rw [integerResult, Value.integer?, if_pos hrange, Int32.ofInt_toInt]

theorem gives_length {n : Int32} (h : n.toInt = s.length) :
    CallGives "length" [.string s] (.integer n) := by
  refine ⟨[.string], _, _, rfl, rfl, fun w => ?_⟩
  have hs : stringArg [.string s] 0 = pure s := rfl
  change ((stringArg [.string s] 0 >>= fun s => integerResult s.length) >>= fun v => pure (some v)) w = _
  rw [hs, pure_bind, ← h, integerResult_toInt]
  rfl

theorem gives_copy (s : String) (index count : Int32) :
    CallGives "copy" [.string s, .integer index, .integer count]
      (.string (copyOf s index.toInt count.toInt)) :=
  ⟨[.string, .integer, .integer], _, _, rfl, rfl, fun _ => rfl⟩

theorem gives_concat (s t : String) : CallGives "concat" [.string s, .string t] (.string (s ++ t)) := by
  refine ⟨[.string, .string], _, _, rfl, rfl, fun w => ?_⟩
  change EStateM.Result.ok (some (Value.string ("" ++ s ++ t))) w = _
  rw [String.empty_append]

/-- The number that `pos` gives: how many characters there are up to the first one of the needle. -/
def posOf (t s : String) : Nat :=
  match occurrence? t.toList s.toList with
  | some before => before + 1
  | none => 0

theorem gives_pos {p : Int32} (h : p.toInt = posOf t s) :
    CallGives "pos" [.string t, .string s] (.integer p) := by
  refine ⟨[.string, .string], _, _, rfl, rfl, fun w => ?_⟩
  change ((match occurrence? t.toList s.toList with
      | some before => integerResult (before + 1)
      | none => integerResult 0) >>= fun v => pure (some v)) w = _
  unfold posOf at h
  split at h
  · next before _ =>
    change (integerResult ((before + 1 : Nat) : Int) >>= _) w = _
    rw [← h, integerResult_toInt]
    rfl
  · next _ =>
    change (integerResult ((0 : Nat) : Int) >>= _) w = _
    rw [← h, integerResult_toInt]
    rfl

/-! ## The characters that are counted -/

/-- A number of characters is an integer, unless there are too many of them. -/
theorem exists_toInt_eq {n : Nat} (h : n ≤ 2147483647) : ∃ i : Int32, i.toInt = n :=
  ⟨Int32.ofInt n, Int32.toInt_ofInt_of_le (by omega) (by omega)⟩

theorem toInt_add_one {i : Int32} (h : i.toInt < 2147483647) : (i + 1).toInt = i.toInt + 1 := by
  have hleast := i.le_toInt
  have hone : (1 : Int32).toInt = 1 := rfl
  rw [Int32.toInt_add, hone, Int.bmod_eq_of_le (by omega) (by omega)]

theorem copyOf_one (s : String) (n : Int) : copyOf s 1 n = String.ofList (s.toList.take n.toNat) := rfl

theorem copyOf_succ (s : String) (k : Nat) (n : Int) :
    copyOf s (k + 1) n = String.ofList ((s.toList.drop k).take n.toNat) := by
  have hstart : (max ((k : Int) + 1) 1 - 1).toNat = k := by omega
  rw [copyOf, hstart]

/-- What `copy` gives is the text that is looked for just where that one stands. -/
theorem copyOf_eq_iff : copyOf s (k + 1) t.length = t ↔ t.toList <+: s.toList.drop k := by
  rw [copyOf_succ, List.prefix_iff_eq_take, Int.toNat_natCast, String.length_toList, eq_comm,
    ← String.toList_inj, String.toList_ofList]

theorem posOf_eq_succ : posOf t s = k + 1 ↔ FirstAt t.toList s.toList k := by
  rw [← occurrence?_eq_some, posOf]
  cases occurrence? t.toList s.toList <;> simp

theorem posOf_eq_zero : posOf t s = 0 ↔ ¬ ∃ before after, s = before ++ t ++ after := by
  have hinfix : t.toList <:+: s.toList ↔ ∃ before after, s = before ++ t ++ after := by
    constructor
    · rintro ⟨before, after, h⟩
      exact ⟨String.ofList before, String.ofList after, String.toList_inj.mp (by simp [← h])⟩
    · rintro ⟨before, after, rfl⟩
      exact ⟨before.toList, after.toList, by simp⟩
  rw [← hinfix, ← occurrence?_eq_none, posOf]
  cases occurrence? t.toList s.toList <;> simp

theorem posOf_le : posOf t s ≤ s.length + 1 := by
  cases h : posOf t s with
  | zero => exact Nat.zero_le _
  | succ k => exact Nat.succ_le_succ ((posOf_eq_succ.mp h).le_length.trans_eq String.length_toList)

/-- The place is the one where the bytes of the text stand for the first time: it is behind the characters
of the bytes before them. -/
theorem firstAt_encoded_iff {o : Nat} : FirstAt (encoded t) (encoded s) o ↔
    ∃ before after, s = before ++ after ∧ (encoded before).length = o ∧ posOf t s = before.length + 1 := by
  have hbytes (s : String) : encoded s = bytes s.toList := encoded_eq s
  simp only [hbytes, firstAt_bytes_iff, posOf_eq_succ]
  constructor
  · rintro ⟨u, w, hs, ho, hfirst⟩
    refine ⟨String.ofList u, String.ofList w, String.toList_inj.mp (by simp [hs]), by simpa using ho, ?_⟩
    simpa using hfirst
  · rintro ⟨u, w, rfl, ho, hfirst⟩
    exact ⟨u.toList, w.toList, String.toList_append, ho, by rwa [String.length_toList]⟩

/-- The largest integer, by the name that programs have for it. -/
def maxint : Int32 := 2147483647

theorem maxint_mem : ("maxint", .integer maxint, .integer) ∈ system.constants := by
  simp [system, maxint]

/-- The two parts of a string that `copy` cuts it into. -/
theorem gives_parts (hs : s.length ≤ 2147483646) {k : Int32} (hk : 0 ≤ k.toInt)
    (hle : k.toInt ≤ s.length) : ∃ a b : String,
      CallGives "copy" [.string s, .integer 1, .integer k] (.string a) ∧
      CallGives "copy" [.string s, .integer (k + 1), .integer maxint] (.string b) ∧
      CallGives "concat" [.string a, .string b] (.string s) ∧ CallGives "length" [.string a] (.integer k) := by
  obtain ⟨j, hj⟩ := Int.eq_ofNat_of_zero_le hk
  have hfirst : copyOf s 1 k.toInt = String.ofList (s.toList.take j) := by
    rw [copyOf_one, hj, Int.toNat_natCast]
  have hsecond : copyOf s (k + 1).toInt maxint.toInt = String.ofList (s.toList.drop j) := by
    rw [toInt_add_one (by omega), hj, copyOf_succ, List.take_of_length_le]
    rw [List.length_drop, String.length_toList, show maxint.toInt.toNat = 2147483647 from rfl]
    omega
  have hwhole : String.ofList (s.toList.take j) ++ String.ofList (s.toList.drop j) = s := by
    rw [← String.ofList_append, List.take_append_drop, String.ofList_toList]
  refine ⟨_, _, hfirst ▸ gives_copy s 1 k, hsecond ▸ gives_copy s (k + 1) maxint, ?_, gives_length ?_⟩
  · have hconcat := gives_concat (String.ofList (s.toList.take j)) (String.ofList (s.toList.drop j))
    rwa [hwhole] at hconcat
  · rw [String.length_ofList, List.length_take, String.length_toList]
    omega

/-- Where `pos` finds a text, `copy` gives that text, and another one at each place before. -/
theorem gives_found (ht : t.length ≤ 2147483646) {p : Int32} (hp : p.toInt = posOf t s) (hne : p ≠ 0) :
    ∃ n : Int32, CallGives "length" [.string t] (.integer n) ∧
      CallGives "copy" [.string s, .integer p, .integer n] (.string t) ∧
      ∀ q : Int32, 1 ≤ q.toInt → q.toInt < p.toInt → ∃ x : String,
        CallGives "copy" [.string s, .integer q, .integer n] (.string x) ∧ x ≠ t := by
  obtain ⟨k, hk⟩ : ∃ k, posOf t s = k + 1 := by
    apply Nat.exists_eq_succ_of_ne_zero
    intro hzero
    exact hne (Int32.toInt_inj.mp (by rw [hp, hzero]; rfl))
  obtain ⟨hhere, hbefore⟩ := posOf_eq_succ.mp hk
  obtain ⟨n, hn⟩ := exists_toInt_eq (Nat.le_succ_of_le ht)
  have hcopy (q : Int32) : CallGives "copy" [.string s, .integer q, .integer n]
      (.string (copyOf s q.toInt t.length)) := hn ▸ gives_copy s q n
  refine ⟨n, gives_length hn, ?_, fun q hq hlt => ⟨_, hcopy q, ?_⟩⟩
  · have hfound : copyOf s p.toInt t.length = t := by
      rw [hp, hk]
      exact copyOf_eq_iff.mpr hhere
    exact hfound ▸ hcopy p
  · obtain ⟨j, hj⟩ : ∃ j : Nat, q.toInt = j + 1 := ⟨(q.toInt - 1).toNat, by omega⟩
    rw [hj]
    exact fun hfound => hbefore j (by omega) (copyOf_eq_iff.mp hfound)

/-- Strings are cut at every place, and found at the first one. `copy` gives the characters up to a place and
those behind it, which are the string again when `concat` puts them together, and `length` gives how many
the first ones are. `pos` gives zero where no part of the string is the one that is looked for; otherwise
`copy` gives that one there, and another one at all places before. The number is that of the characters up
to the place where the bytes of the part are found. -/
theorem length_copy_pos_agree (s t : String) (hs : s.length ≤ 2147483646) (ht : t.length ≤ 2147483646) :
    (∀ k : Int32, 0 ≤ k.toInt → k.toInt ≤ s.length → ∃ a b : String,
      CallGives "copy" [.string s, .integer 1, .integer k] (.string a) ∧
      CallGives "copy" [.string s, .integer (k + 1), .integer maxint] (.string b) ∧
      CallGives "concat" [.string a, .string b] (.string s) ∧ CallGives "length" [.string a] (.integer k)) ∧
    ∃ p : Int32, CallGives "pos" [.string t, .string s] (.integer p) ∧
      (p = 0 ↔ ¬ ∃ before after, s = before ++ t ++ after) ∧
      (p ≠ 0 → ∃ n : Int32, CallGives "length" [.string t] (.integer n) ∧
        CallGives "copy" [.string s, .integer p, .integer n] (.string t) ∧
        ∀ q : Int32, 1 ≤ q.toInt → q.toInt < p.toInt → ∃ x : String,
          CallGives "copy" [.string s, .integer q, .integer n] (.string x) ∧ x ≠ t) ∧
      ∀ o, FirstAt (encoded t) (encoded s) o ↔ ∃ before after,
        s = before ++ after ∧ (encoded before).length = o ∧ p.toInt = before.length + 1 := by
  obtain ⟨p, hp⟩ := exists_toInt_eq (posOf_le.trans (Nat.succ_le_succ hs) : posOf t s ≤ 2147483647)
  refine ⟨fun k hk hle => gives_parts hs hk hle, p, gives_pos hp, ?_, gives_found ht hp, fun o => ?_⟩
  · rw [← posOf_eq_zero, ← Int32.toInt_inj, hp]
    exact Int.natCast_eq_zero
  · rw [firstAt_encoded_iff, hp]
    norm_cast

/-- A part is found behind characters of two bytes, and what is copied from there is that part. -/
theorem length_copy_pos_agree_letters :
    "Ünïcode".length ≤ 2147483646 ∧ "code".length ≤ 2147483646 ∧
      ∃ p n : Int32, CallGives "pos" [.string "code", .string "Ünïcode"] (.integer p) ∧ p ≠ 0 ∧
        CallGives "copy" [.string "Ünïcode", .integer p, .integer n] (.string "code") := by
  have hs : "Ünïcode".length ≤ 2147483646 := by decide
  have ht : "code".length ≤ 2147483646 := by decide
  obtain ⟨-, p, hpos, hzero, hfound, -⟩ := length_copy_pos_agree "Ünïcode" "code" hs ht
  have hne : p ≠ 0 := fun h => hzero.mp h ⟨"Ünï", "", rfl⟩
  obtain ⟨n, -, hcopy, -⟩ := hfound hne
  exact ⟨hs, ht, p, n, hpos, hne, hcopy⟩

end Pascal.Library
