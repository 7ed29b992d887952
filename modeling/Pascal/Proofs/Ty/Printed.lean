import Pascal.Proofs.Token.Printed
import Pascal.Proofs.Ty.Bounds
import Pascal.Ty

/-!
# Types as rows of tokens

The name of a type is written without white space between most of its tokens. What comes behind a piece of
it still ends that piece: no digit, letter or point with a digit does.
-/

namespace Pascal

namespace Token

/-- In front of some rest, a text is scanned to tokens of certain kinds. -/
def Scans (ks : List Kind) (cs rest : List Char) : Prop :=
  ∀ p, ∃ (ts : List Token) (q : Position),
    scanFrom p (cs ++ rest) = ts.map .ok ++ scanFrom q rest ∧ ts.map (·.kind) = ks

namespace Scans

variable {ks ks' : List Kind} {cs cs' rest : List Char}

theorem append (h : Scans ks cs (cs' ++ rest)) (h' : Scans ks' cs' rest) :
    Scans (ks ++ ks') (cs ++ cs') rest := by
  intro p
  obtain ⟨ts, q, hscan, hkinds⟩ := h p
  obtain ⟨ts', q', hscan', hkinds'⟩ := h' q
  refine ⟨ts ++ ts', q', ?_, by rw [List.map_append, hkinds, hkinds']⟩
  rw [List.append_assoc, hscan, hscan', List.map_append, List.append_assoc]

theorem token {c : Char} {w : List Char} {k : Kind} (h : cut c (cs ++ rest) = ⟨w, .token k, rest⟩) :
    Scans [k] (c :: cs) rest :=
  fun p => ⟨[⟨k, p⟩], p.after w, scanFrom_token p h, rfl⟩

theorem blank {c : Char} (h : Text.isBlank c) : Scans [] [c] rest :=
  fun p => ⟨[], p.after [c], scanFrom_blank p (cut_blank h rest), rfl⟩

theorem keyword (k : Keyword) (hrest : ∀ d ∈ rest.head?, isWordChar d = false) :
    Scans [.keyword k] k.text.toList rest := by
  have hlower : k.text.toList.map Char.toLower = k.text.toList := by
    cases k <;> decide
  obtain ⟨c, cs, hw, hcut⟩ := cut_word hrest (isName_keyword hlower)
  rw [wordKind_keyword hlower] at hcut
  rw [hw]
  exact token hcut

end Scans

/-- The literal of a natural number that 64 bits hold. -/
def Kind.ofNat (m : Nat) : Kind :=
  if m < word32Limit then .integer (Int32.ofNat m) else .long (Int64.ofNat m)

/-- The tokens of an integer: its digits, behind a minus sign if it is negative. -/
def Kind.ofInt (n : Int) : List Kind :=
  if n < 0 then [.symbol .minus, Kind.ofNat n.natAbs] else [Kind.ofNat n.natAbs]

theorem Kind.ofNat?_eq {m : Nat} (h : m < word64Limit) : Kind.ofNat? m = some (Kind.ofNat m) := by
  unfold Kind.ofNat? Kind.ofNat
  rw [if_pos h]
  split <;> rfl

/-- Integers may have two points or a bracket behind them. -/
theorem scans_integer {n : Int} (hlower : -2 ^ 63 < n) (hupper : n < 2 ^ 63) {rest : List Char}
    (hdigit : ∀ c ∈ rest.head?, c.isDigit = false) (hfraction : fraction rest = ([], rest))
    (hexponent : exponent rest = ([], rest)) : Scans (Kind.ofInt n) (Decimal.integer n) rest := by
  have hkind : Kind.ofNat? n.natAbs = some (Kind.ofNat n.natAbs) := by
    refine Kind.ofNat?_eq ?_
    have hlimit : (word64Limit : Int) = 2 ^ 63 := by decide
    omega
  obtain ⟨c, cs, hw, hcut⟩ := cut_decimal hdigit hfraction hexponent hkind
  have hdigits : Scans [Kind.ofNat n.natAbs] (Decimal.numeral n.natAbs) rest := by
    rw [Decimal.numeral, hw]
    exact .token hcut
  unfold Kind.ofInt Decimal.integer
  split
  · have hminus : Scans [.symbol .minus] ['-'] (Decimal.numeral n.natAbs ++ rest) := .token rfl
    exact hminus.append hdigits
  · exact hdigits

end Token

open Token

namespace Ty

/-- The types that source texts can name: basic types, pointers, open arrays, and arrays with elements.
A literal does not reach the least of all lower bounds. -/
inductive Writable : Ty → Prop
  | basic (b : Basic) : Writable (.basic b)
  | pointer {target : Ty} (h : Writable target) : Writable (.pointer target)
  | openArray {element : Ty} (h : Writable element) : Writable (.openArray element)
  | array {element : Ty} {bounds : Subrange} (hlower : -2 ^ 63 < bounds.lower.toInt)
      (hsize : 0 < bounds.size) (h : Writable element) : Writable (.array element bounds)

/-- The tokens of the name of a type. -/
def kinds : Ty → List Kind
  | basic b => [.identifier b.name]
  | array element bounds =>
    if bounds.isOpen then .keyword .array :: .keyword .of :: element.kinds
    else .keyword .array :: .symbol .leftBracket ::
      (Kind.ofInt bounds.lower.toInt ++ .symbol .dotDot :: Kind.ofInt bounds.upper.toInt ++
        .symbol .rightBracket :: .keyword .of :: element.kinds)
  | pointer target => .symbol .caret :: target.kinds
  | varargs _ | any | text | nil => []

theorem wordKind_basic (b : Basic) : wordKind b.name = .identifier b.name := by
  have hfree : Keyword.ofWord? b.name = none := by
    cases b <;> decide
  rw [wordKind, hfree]

theorem isName_basic (b : Basic) : IsName b.name.toList := by
  have hletters : b.name.toList ≠ [] ∧ b.name.toList.head?.all Char.isAlpha ∧
      b.name.toList.all Char.isAlphanum := by
    cases b <;> decide
  obtain ⟨hne, hhead, hall⟩ := hletters
  cases hname : b.name.toList with
  | nil => exact absurd hname hne
  | cons c cs =>
    rw [hname] at hhead hall
    refine isName_of_ascii (.inl (by simpa using hhead)) fun d hd => .inl ?_
    exact List.all_eq_true.mp hall d (List.mem_cons_of_mem _ hd)

/-- What stands in front of the element type of an array. -/
theorem scans_of {ks : List Kind} {cs : List Char} (h : Scans ks cs []) :
    Scans (.keyword .of :: ks) (' ' :: 'o' :: 'f' :: ' ' :: cs) [] := by
  have hblank : ∀ rest, Scans [] [' '] rest := fun rest => .blank rfl
  have hof : Scans [.keyword .of] ['o', 'f'] (' ' :: cs ++ []) := .keyword .of (by simp; decide)
  exact (hblank _).append (hof.append ((hblank _).append h))

/-- The name of a type, up to the end of the text, is scanned to its tokens. -/
theorem Writable.scans {ty : Ty} (h : ty.Writable) : Scans ty.kinds ty.name.toList [] := by
  induction h with
  | basic b =>
    obtain ⟨c, cs, hw, hcut⟩ := @cut_word [] (by simp) _ (isName_basic b)
    rw [String.ofList_toList, wordKind_basic] at hcut
    rw [kinds, name, hw]
    exact .token hcut
  | pointer _ ih =>
    have hcaret : ∀ rest, Scans [.symbol .caret] ['^'] rest := fun rest => .token rfl
    rw [kinds, name, String.toList_append]
    exact (hcaret _).append ih
  | @openArray element _ ih =>
    have harray : Scans [.keyword .array] ['a', 'r', 'r', 'a', 'y']
        (' ' :: 'o' :: 'f' :: ' ' :: element.name.toList ++ []) := .keyword .array (by simp; decide)
    have hopen : Subrange.unbounded.isOpen = true := rfl
    rw [Ty.openArray, kinds, name, if_pos hopen, if_pos hopen, String.toList_append]
    exact harray.append (scans_of ih)
  | @array element bounds hlower hsize _ ih =>
    have hclosed := Subrange.isOpen_eq_false hsize
    have hupper : -2 ^ 63 < bounds.upper.toInt := by
      have hle := Int64.le_iff_toInt_le.mp (Subrange.lower_le_upper hsize)
      omega
    have hbegin : ∀ rest, Scans [.keyword .array, .symbol .leftBracket]
        ['a', 'r', 'r', 'a', 'y', '['] rest := fun rest =>
      (Scans.keyword .array (by simp; decide)).append (.token rfl : Scans _ ['['] rest)
    have hdots : ∀ rest, Scans [.symbol .dotDot] ['.', '.'] rest := fun rest => .token rfl
    have hend : ∀ rest, Scans [.symbol .rightBracket] [']'] rest := fun rest => .token rfl
    have hfirst : ∀ rest, Scans (Kind.ofInt bounds.lower.toInt) (Decimal.integer bounds.lower.toInt)
        ('.' :: '.' :: rest) := fun rest =>
      scans_integer hlower bounds.lower.toInt_lt (by simp) rfl rfl
    have hsecond : ∀ rest, Scans (Kind.ofInt bounds.upper.toInt) (Decimal.integer bounds.upper.toInt)
        (']' :: ' ' :: rest) := fun rest =>
      scans_integer hupper bounds.upper.toInt_lt (by simp) rfl rfl
    have hall := (hbegin _).append <| (hfirst _).append <| (hdots _).append <| (hsecond _).append <|
      (hend _).append (scans_of ih)
    rw [kinds, name, hclosed, Subrange.text, hclosed]
    simpa using hall

end Ty

end Pascal
