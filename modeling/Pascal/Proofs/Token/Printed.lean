import Mathlib
import Pascal.Proofs.Token.Scan

/-!
# Printed tokens

The ways to write tokens, and the ways to keep them apart. A row of tokens that are written one after
another, each behind white space, is scanned to exactly these tokens.
-/

namespace Pascal

namespace Text

/-- The codes of the white space characters. -/
def blankCodes : List Nat :=
  [9, 10, 11, 12, 13, 0x20, 0x85, 0xA0, 0x1680, 0x2000, 0x2001, 0x2002, 0x2003, 0x2004, 0x2005, 0x2006,
    0x2007, 0x2008, 0x2009, 0x200A, 0x2028, 0x2029, 0x202F, 0x205F, 0x3000]

theorem mem_blankCodes {c : Char} (h : isBlank c) : c.toNat ∈ blankCodes := by
  simp only [isBlank, Bool.or_eq_true, Bool.and_eq_true, decide_eq_true_eq, beq_iff_eq] at h
  simp only [blankCodes, List.mem_cons, List.not_mem_nil, or_false]
  omega

/-- What holds of all white space characters can be tried out. -/
theorem forall_blank {P : Char → Prop} (h : ∀ n ∈ blankCodes, P (Char.ofNat n)) {c : Char}
    (hc : isBlank c) : P c := by
  have hcode := h _ (mem_blankCodes hc)
  rwa [Char.ofNat_toNat] at hcode

/-- What holds of all ASCII characters can be tried out. -/
theorem forall_ascii {P : Char → Prop} (h : ∀ n : Fin 128, P (Char.ofNat n)) {c : Char}
    (hc : c.toNat < 128) : P c := by
  have hcode := h ⟨c.toNat, hc⟩
  rwa [Char.ofNat_toNat] at hcode

theorem toLower_of_le {c : Char} (h : 128 ≤ c.toNat) : c.toLower = c := by
  apply dif_neg
  rintro ⟨-, hcap⟩
  have hcap : c.toNat ≤ 90 := hcap
  omega

end Text

namespace Decimal

theorem value_toDigits (n : Nat) : value (Nat.toDigits 10 n) = n := by
  rw [value, ← Nat.ofDigitChars_eq_foldl, Nat.ofDigitChars_ten_toDigits]

theorem hexDigit?_toLower (c : Char) : hexDigit? c.toLower = hexDigit? c := by
  by_cases hc : c.toNat < 128
  · exact Text.forall_ascii (P := fun c => hexDigit? c.toLower = hexDigit? c) (by decide) hc
  · rw [Text.toLower_of_le (by omega)]

theorem hexValue_map_toLower (ds : List Char) : hexValue (ds.map Char.toLower) = hexValue ds := by
  simp only [hexValue, List.foldl_map, hexDigit?_toLower]

theorem hexDigit?_digitChar {n : Nat} (h : n < 16) : hexDigit? n.digitChar = some n := by
  have hall : ∀ n : Fin 16, hexDigit? (Nat.digitChar n) = some n.val := by decide
  exact hall ⟨n, h⟩

theorem hexValue_toDigits (n : Nat) : hexValue (Nat.toDigits 16 n) = n := by
  induction n using Nat.strongRecOn with
  | _ n ih =>
    rw [Nat.toDigits_eq_if (by decide)]
    split
    · next h => simp [hexValue, hexDigit?_digitChar h]
    · next h =>
      have hinit := ih (n / 16) (by omega)
      have hlast := hexDigit?_digitChar (Nat.mod_lt n (by decide : 16 > 0))
      rw [hexValue] at hinit ⊢
      rw [List.foldl_append, hinit, List.foldl_cons, List.foldl_nil, hlast, Option.getD_some]
      omega

theorem hexDigit?_of_mem_toDigits {c : Char} {n : Nat} (h : c ∈ Nat.toDigits 16 n) :
    (hexDigit? c).isSome := by
  induction n using Nat.strongRecOn with
  | _ n ih =>
    rw [Nat.toDigits_eq_if (by decide)] at h
    split at h
    · next hn => rw [List.mem_singleton.mp h, hexDigit?_digitChar hn]; rfl
    · next hn =>
      rcases List.mem_append.mp h with h | h
      · exact ih (n / 16) (by omega) h
      · rw [List.mem_singleton.mp h, hexDigit?_digitChar (Nat.mod_lt n (by decide))]; rfl

end Decimal

namespace Token

/-- The characters of quoted text, where a quote is written twice. -/
def escaped (cs : List Char) : List Char :=
  cs.flatMap fun c => if c = '\'' then ['\'', '\''] else [c]

/-- Characters as quoted pieces, with the code of a newline in its place between them. `isOpen` tells
whether a piece has been begun. -/
def quotedPieces (isOpen : Bool) : List Char → List Char
  | [] => if isOpen then ['\''] else []
  | c :: cs =>
    if c = '\n' then (if isOpen then ['\''] else []) ++ '#' :: '1' :: '0' :: quotedPieces false cs
    else (if isOpen then [] else ['\'']) ++ escaped [c] ++ quotedPieces true cs

/-- A literal that spells some characters. Without any it is an empty piece. -/
def quotedLiteral (cs : List Char) : List Char :=
  if cs.isEmpty then ['\'', '\''] else quotedPieces false cs

/-- A natural number in decimal, or in hexadecimal digits of either case behind a dollar sign. -/
inductive Numeral (n : Nat) : List Char → Prop
  | decimal : Numeral n (Nat.toDigits 10 n)
  | hex {ds : List Char} (h : ds.map Char.toLower = Nat.toDigits 16 n) : Numeral n ('$' :: ds)

/-- A letter or an underscore, and then letters, digits and underscores, of any alphabet. -/
def IsName (w : List Char) : Prop :=
  ∃ c cs, w = c :: cs ∧ (Text.isLetter c ∨ c = '_') ∧ ∀ d ∈ cs, isWordChar d

/-- The ways to write a token. Keywords may have any letter case, and names may be no keyword in any. -/
inductive Kind.Printed : Kind → List Char → Prop
  | keyword {k : Keyword} {w : List Char} (h : w.map Char.toLower = k.text.toList) :
      Printed (.keyword k) w
  | symbol (s : Symbol) : Printed (.symbol s) s.text.toList
  | identifier {w : List Char} (hname : IsName w)
      (hfree : ∀ k : Keyword, w.map Char.toLower ≠ k.text.toList) :
      Printed (.identifier (String.ofList w)) w
  | integer {m : Nat} {n : Int32} (hn : n.toInt = m) {w : List Char} (hw : Numeral m w) :
      Printed (.integer n) w
  | long {m : Nat} {n : Int64} (hn : n.toInt = m) (hlong : word32Limit ≤ m) {w : List Char}
      (hw : Numeral m w) : Printed (.long n) w
  | char (c : Char) : Printed (.char c) (quotedLiteral [c])
  | string {s : String} (h : s.length ≠ 1) : Printed (.string s) (quotedLiteral s.toList)

/-- White space and comments in any order. A comment in braces is no directive, the one in
parentheses ends with the first star before a parenthesis, and one behind two slashes ends with its
line. -/
inductive Filler : List Char → Prop
  | nil : Filler []
  | blank {c : Char} {cs : List Char} (hc : Text.isBlank c) (hcs : Filler cs) : Filler (c :: cs)
  | braces {body cs : List Char} (hbody : '}' ∉ body) (hplain : body.head? ≠ some '$')
      (hcs : Filler cs) : Filler ('{' :: (body ++ '}' :: cs))
  | stars {body cs : List Char} (hbody : ¬['*', ')'] <:+: body) (hcs : Filler cs) :
      Filler ('(' :: '*' :: (body ++ '*' :: ')' :: cs))
  | slashes {body cs : List Char} (hbody : '\n' ∉ body) (hcs : Filler cs) :
      Filler ('/' :: '/' :: (body ++ '\n' :: cs))

/-- What keeps two tokens apart: white space, and then any filler. -/
inductive Separator : List Char → Prop
  | mk {c : Char} {cs : List Char} (hc : Text.isBlank c) (hcs : Filler cs) : Separator (c :: cs)

/-- The texts that some tokens make, each written in one of its ways, with separators between them. -/
inductive Prints : List Kind → List Char → Prop
  | nil : Prints [] []
  | single {k : Kind} {w : List Char} (hk : k.Printed w) : Prints [k] w
  | cons {k next : Kind} {ks : List Kind} {w sep cs : List Char} (hk : k.Printed w)
      (hsep : Separator sep) (hcs : Prints (next :: ks) cs) : Prints (k :: next :: ks) (w ++ (sep ++ cs))

/-- The text is at its end, or white space comes next. -/
def Ends (rest : List Char) : Prop := ∀ c ∈ rest.head?, Text.isBlank c

theorem ends_nil : Ends [] := nofun

theorem ends_cons {c : Char} {cs : List Char} (hc : Text.isBlank c) : Ends (c :: cs) := by
  intro d hd
  cases hd
  exact hc

section

variable {rest : List Char}

/-- No white space character has `p` where none does by trial. -/
theorem Ends.stops {p : Char → Bool} (h : Ends rest)
    (hp : ∀ n ∈ Text.blankCodes, p (Char.ofNat n) = false) : ∀ c ∈ rest.head?, p c = false :=
  fun c hc => Text.forall_blank (P := fun c => p c = false) hp (h c hc)

theorem takeWhile_stops {p : Char → Bool} {w : List Char} (hw : ∀ c ∈ w, p c)
    (hrest : ∀ c ∈ rest.head?, p c = false) :
    (w ++ rest).takeWhile p = w ∧ (w ++ rest).dropWhile p = rest := by
  rw [List.takeWhile_append_of_pos hw, List.dropWhile_append_of_pos hw]
  cases rest with
  | nil => simp
  | cons c cs =>
    have hc : ¬p c = true := by simp [hrest c rfl]
    simp [List.takeWhile_cons_of_neg hc, List.dropWhile_cons_of_neg hc]

theorem fraction_ends (h : Ends rest) : fraction rest = ([], rest) := by
  cases rest with
  | nil => rfl
  | cons c cs =>
    have hc : c ≠ '.' := by
      rintro rfl
      exact absurd (h '.' rfl) (by decide)
    rw [fraction.eq_def]
    split
    · next heq => cases heq; contradiction
    · rfl

theorem exponent_ends (h : Ends rest) : exponent rest = ([], rest) := by
  cases rest with
  | nil => rfl
  | cons c cs =>
    have hc : (c == 'e' || c == 'E') = false :=
      Text.forall_blank (P := fun c => (c == 'e' || c == 'E') = false) (by decide) (h c rfl)
    cases cs with
    | nil => rfl
    | cons d cs => simp only [exponent, hc, Bool.false_eq_true, if_false]

theorem escaped_cons (c : Char) (cs : List Char) : escaped (c :: cs) = escaped [c] ++ escaped cs := by
  simp [escaped]

/-- A piece that has been begun goes on up to the next newline. -/
theorem quotedPieces_open (cs : List Char) :
    quotedPieces true cs = escaped (cs.takeWhile (· ≠ '\n')) ++
      '\'' :: quotedPieces false (cs.dropWhile (· ≠ '\n')) := by
  induction cs with
  | nil => rfl
  | cons c cs ih =>
    by_cases hc : c = '\n'
    · subst hc
      rfl
    · rw [List.takeWhile_cons_of_pos (by simpa using hc), List.dropWhile_cons_of_pos (by simpa using hc),
        escaped_cons, List.append_assoc, ← ih, quotedPieces, if_neg hc]
      rfl

/-- A piece is begun by the first character that is no newline. -/
theorem quotedPieces_begin {c : Char} (hc : c ≠ '\n') (cs : List Char) :
    quotedPieces false (c :: cs) = '\'' :: quotedPieces true (c :: cs) := by
  rw [quotedPieces, quotedPieces, if_neg hc, if_neg hc]
  rfl

/-- Literals begin with a quote or a code, and white space follows them. -/
theorem head_quotedPieces (h : Ends rest) (cs : List Char) :
    ∀ c ∈ (quotedPieces false cs ++ rest).head?, c = '\'' ∨ c = '#' ∨ Text.isBlank c := by
  intro c hc
  cases cs with
  | nil => exact .inr (.inr (h c hc))
  | cons d cs =>
    by_cases hd : d = '\n'
    · subst hd
      cases hc
      exact .inr (.inl rfl)
    · rw [quotedPieces_begin hd] at hc
      cases hc
      exact .inl rfl

/-- What is left at a newline begins with no quote. -/
theorem head_quotedPieces_dropWhile (h : Ends rest) (cs : List Char) :
    (quotedPieces false (cs.dropWhile (· ≠ '\n')) ++ rest).head? ≠ some '\'' := by
  induction cs with
  | nil => exact fun hquote => absurd (h '\'' hquote) (by decide)
  | cons c cs ih =>
    by_cases hc : c = '\n'
    · subst hc
      exact nofun
    · rw [List.dropWhile_cons_of_pos (by simpa using hc)]
      exact ih

theorem quotedText_close (h : rest.head? ≠ some '\'') :
    quotedText ('\'' :: rest) = ⟨['\''], some [], rest⟩ := by
  cases rest with
  | nil => rfl
  | cons c cs =>
    rw [quotedText.eq_def]
    split
    · next heq => cases heq
    · next heq => cases heq; exact absurd rfl h
    · next heq => cases heq; rfl

/-- Quoted text is read up to the quote that is not written twice. -/
theorem quotedText_escaped {run : List Char} (hrun : '\n' ∉ run) (h : rest.head? ≠ some '\'') :
    quotedText (escaped run ++ '\'' :: rest) = ⟨escaped run ++ ['\''], some run, rest⟩ := by
  induction run with
  | nil => exact quotedText_close h
  | cons c run ih =>
    rw [List.mem_cons, not_or] at hrun
    obtain ⟨hc, hrun⟩ := hrun
    by_cases hquote : c = '\''
    · subst hquote
      have hmore : quotedText ('\'' :: '\'' :: (escaped run ++ '\'' :: rest)) = _ := quotedText.eq_2 _
      rw [ih hrun] at hmore
      exact hmore
    · have hsingle : escaped (c :: run) = c :: escaped run := by
        rw [escaped_cons, escaped, List.flatMap_singleton, if_neg hquote]
        rfl
      rw [hsingle, List.cons_append, quotedText.eq_3 _ _ (by simp [hquote]), if_neg hquote,
        if_neg (Ne.symm hc), ih hrun]
      rfl

/-- What a literal spells: what its first piece does, and then what the pieces behind that one do. -/
def spelled (taken text : List Char) :
    Except (LexError.Cause × List Char) (List Char) → Except (LexError.Cause × List Char) (List Char)
  | .ok tail => .ok (text ++ tail)
  | .error (.unterminatedString, _) => .error (.unterminatedString, [])
  | .error (cause, before) => .error (cause, taken ++ before)

section

variable {cs w text : List Char} {c : Char}

theorem stringPieces_unterminated (h : quotedText cs = ⟨w, none, rest⟩) :
    stringPieces ('\'' :: cs) = ⟨'\'' :: w, .error (.unterminatedString, []), rest⟩ := by
  rw [stringPieces]
  simp only [h]

theorem stringPieces_quoted (h : quotedText cs = ⟨w, some text, rest⟩) :
    stringPieces ('\'' :: cs) = ⟨'\'' :: w ++ (stringPieces rest).taken,
      spelled ('\'' :: w) text (stringPieces rest).found, (stringPieces rest).rest⟩ := by
  rw [stringPieces]
  simp only [h]
  rfl

theorem stringPieces_noCode (htake : cs.takeWhile Char.isDigit = w)
    (hdrop : cs.dropWhile Char.isDigit = rest)
    (h : (Decimal.natural? w).bind charOfCode? = none) :
    stringPieces ('#' :: cs) = ⟨'#' :: w, .error (.invalidCharCode (String.ofList w), []), rest⟩ := by
  rw [stringPieces]
  simp only [htake, hdrop, h]

theorem stringPieces_code (htake : cs.takeWhile Char.isDigit = w)
    (hdrop : cs.dropWhile Char.isDigit = rest)
    (h : (Decimal.natural? w).bind charOfCode? = some c) :
    stringPieces ('#' :: cs) = ⟨'#' :: w ++ (stringPieces rest).taken,
      spelled ('#' :: w) [c] (stringPieces rest).found, (stringPieces rest).rest⟩ := by
  rw [stringPieces]
  simp only [htake, hdrop, h]
  rfl

theorem stringPieces_end (h : ∀ d ∈ cs.head?, d ≠ '\'' ∧ d ≠ '#') :
    stringPieces cs = ⟨[], .ok [], cs⟩ := by
  rw [stringPieces.eq_def]
  split
  · exact absurd rfl (h '\'' rfl).1
  · exact absurd rfl (h '#' rfl).2
  · rfl

theorem stringPieces_ends (h : Ends rest) : stringPieces rest = ⟨[], .ok [], rest⟩ := by
  refine stringPieces_end fun d hd => ⟨?_, ?_⟩ <;> rintro rfl
  · exact absurd (h '\'' hd) (by decide)
  · exact absurd (h '#' hd) (by decide)

theorem stringPieces_piece {tail taken rest' : List Char} (hpiece : quotedText cs = ⟨w, some text, rest⟩)
    (hmore : stringPieces rest = ⟨taken, .ok tail, rest'⟩) :
    stringPieces ('\'' :: cs) = ⟨'\'' :: w ++ taken, .ok (text ++ tail), rest'⟩ := by
  rw [stringPieces_quoted hpiece, hmore]
  rfl

theorem stringPieces_newline {tail taken rest' : List Char} (hdigit : ∀ c ∈ rest.head?, c.isDigit = false)
    (hmore : stringPieces rest = ⟨taken, .ok tail, rest'⟩) :
    stringPieces ('#' :: '1' :: '0' :: rest) = ⟨'#' :: '1' :: '0' :: taken, .ok ('\n' :: tail), rest'⟩ := by
  obtain ⟨htake, hdrop⟩ :=
    takeWhile_stops (p := Char.isDigit) (w := ['1', '0']) (List.all_eq_true.mp rfl) hdigit
  have hcode : (Decimal.natural? ['1', '0']).bind charOfCode? = some '\n' := by decide
  have hpiece := stringPieces_code htake hdrop hcode
  rw [hmore] at hpiece
  exact hpiece

end

/-- Quoted pieces spell the characters they were made of. -/
theorem stringPieces_quotedPieces (h : Ends rest) (cs : List Char) :
    stringPieces (quotedPieces false cs ++ rest) = ⟨quotedPieces false cs, .ok cs, rest⟩ := by
  induction hn : cs.length using Nat.strongRecOn generalizing cs with
  | _ n ih =>
    subst hn
    cases cs with
    | nil => exact stringPieces_ends h
    | cons c cs =>
      by_cases hc : c = '\n'
      · subst hc
        refine stringPieces_newline (fun d hd => ?_) (ih _ (Nat.lt_succ_self _) cs rfl)
        rcases head_quotedPieces h cs d hd with rfl | rfl | hd
        · rfl
        · rfl
        · exact Text.forall_blank (P := fun c => c.isDigit = false) (by decide) hd
      · -- the piece that begins here ends at the next newline or with the text
        have hrun : '\n' ∉ (c :: cs).takeWhile (· ≠ '\n') := by
          intro hmem
          simpa using List.mem_takeWhile_imp hmem
        have hshort : ((c :: cs).dropWhile (· ≠ '\n')).length < (c :: cs).length := by
          rw [List.dropWhile_cons_of_pos (by simpa using hc)]
          exact Nat.lt_succ_of_le (length_dropWhile_le _ cs)
        have hpiece := quotedText_escaped hrun (head_quotedPieces_dropWhile h (c :: cs))
        rw [quotedPieces_begin hc, quotedPieces_open, List.cons_append, List.append_assoc, List.cons_append]
        rw [stringPieces_piece hpiece (ih _ hshort _ rfl), List.takeWhile_append_dropWhile]
        simp

/-- A literal spells the characters it was made of. -/
theorem stringPieces_quotedLiteral (h : Ends rest) (cs : List Char) :
    stringPieces (quotedLiteral cs ++ rest) = ⟨quotedLiteral cs, .ok cs, rest⟩ := by
  cases cs with
  | nil =>
    have hclose : rest.head? ≠ some '\'' := fun hquote => absurd (h '\'' hquote) (by decide)
    exact stringPieces_piece (quotedText_close hclose) (stringPieces_ends h)
  | cons c cs => exact stringPieces_quotedPieces h (c :: cs)

theorem cut_quotedLiteral (cs rest : List Char) : ∃ c w, quotedLiteral cs = c :: w ∧
    cut c (w ++ rest) = stringLiteral (quotedLiteral cs ++ rest) := by
  have hbegin : ∃ c w, quotedLiteral cs = c :: w ∧ (c = '\'' ∨ c = '#') := by
    cases cs with
    | nil => exact ⟨_, _, rfl, .inl rfl⟩
    | cons c cs =>
      by_cases hc : c = '\n'
      · subst hc
        exact ⟨_, _, rfl, .inr rfl⟩
      · exact ⟨_, _, quotedPieces_begin hc cs, .inl rfl⟩
  obtain ⟨c, w, hw, hc⟩ := hbegin
  refine ⟨c, w, hw, ?_⟩
  rw [hw, List.cons_append]
  rcases hc with rfl | rfl <;> rfl

/-- A literal of one character is that character. -/
theorem cut_char (h : Ends rest) (c : Char) : ∃ d w, quotedLiteral [c] = d :: w ∧
    cut d (w ++ rest) = ⟨quotedLiteral [c], .token (.char c), rest⟩ := by
  obtain ⟨d, w, hw, hcut⟩ := cut_quotedLiteral [c] rest
  refine ⟨d, w, hw, ?_⟩
  rw [hcut, stringLiteral, stringPieces_quotedLiteral h]

/-- A literal of no or several characters is a text. -/
theorem cut_string (h : Ends rest) (cs : List Char) (hcs : cs.length ≠ 1) : ∃ d w,
    quotedLiteral cs = d :: w ∧
    cut d (w ++ rest) = ⟨quotedLiteral cs, .token (.string (String.ofList cs)), rest⟩ := by
  obtain ⟨d, w, hw, hcut⟩ := cut_quotedLiteral cs rest
  refine ⟨d, w, hw, ?_⟩
  rw [hcut, stringLiteral, stringPieces_quotedLiteral h]
  cases cs with
  | nil => rfl
  | cons c cs =>
    cases cs with
    | nil => exact absurd rfl hcs
    | cons => rfl

theorem ofNat?_integer {m : Nat} {n : Int32} (hn : n.toInt = m) : Kind.ofNat? m = some (.integer n) := by
  have hlt := n.toInt_lt
  have hsmall : m < word32Limit := by
    have hlimit : (word32Limit : Int) = 2 ^ 31 := by decide
    omega
  have hval : Int32.ofNat m = n := by
    rw [← Int32.ofInt_toInt n, hn]
    exact Int32.ofInt_eq_ofNat.symm
  rw [Kind.ofNat?, if_pos hsmall, hval]

theorem ofNat?_long {m : Nat} {n : Int64} (hn : n.toInt = m) (hlong : word32Limit ≤ m) :
    Kind.ofNat? m = some (.long n) := by
  have hlt := n.toInt_lt
  have hsmall : m < word64Limit := by
    have hlimit : (word64Limit : Int) = 2 ^ 63 := by decide
    omega
  have hval : Int64.ofNat m = n := by
    rw [← Int64.ofInt_toInt n, hn]
    exact Int64.ofInt_eq_ofNat.symm
  rw [Kind.ofNat?, if_neg (by omega), if_pos hsmall, hval]

theorem cut_digit {c : Char} (hc : c.isDigit) (cs : List Char) : cut c cs = number (c :: cs) := by
  have hascii : c.toNat < 128 := by
    simp only [Char.isDigit, Bool.and_eq_true, decide_eq_true_eq] at hc
    have hle : c.toNat ≤ 57 := hc.2
    omega
  obtain ⟨hblank, hothers⟩ := Text.forall_ascii
    (P := fun c => c.isDigit → Text.isBlank c = false ∧
      c ≠ '{' ∧ c ≠ '(' ∧ c ≠ '/' ∧ ¬(c = '\'' ∨ c = '#') ∧ c ≠ '$') (by decide) hascii hc
  obtain ⟨hbrace, hparen, hslash, hquote, hdollar⟩ := hothers
  simp only [cut, hblank, hbrace, hparen, hslash, hquote, hdollar, hc, false_and, if_false, if_true,
    Bool.false_eq_true]

/-- Decimal digits are cut off whole if neither a digit nor a fraction or an exponent comes behind them. -/
theorem cut_decimal (hdigit : ∀ c ∈ rest.head?, c.isDigit = false) (hfraction : fraction rest = ([], rest))
    (hexponent : exponent rest = ([], rest)) {m : Nat} {kind : Kind} (hkind : Kind.ofNat? m = some kind) :
    ∃ c cs, Nat.toDigits 10 m = c :: cs ∧
      cut c (cs ++ rest) = ⟨Nat.toDigits 10 m, .token kind, rest⟩ := by
  have hdigits : ∀ c ∈ Nat.toDigits 10 m, c.isDigit :=
    fun c hc => Nat.isDigit_of_mem_toDigits (by decide) (by decide) hc
  obtain ⟨htake, hdrop⟩ := takeWhile_stops hdigits hdigit
  obtain ⟨c, cs, hw⟩ := List.exists_cons_of_ne_nil (Nat.toDigits_ne_nil (n := m) (b := 10))
  refine ⟨c, cs, hw, ?_⟩
  have hc : c.isDigit := hdigits c (by simp [hw])
  rw [cut_digit hc, ← List.cons_append, ← hw, number, htake, hdrop, hfraction]
  dsimp only
  rw [hexponent]
  simp [Decimal.value_toDigits, hkind, orFault]

/-- A number is scanned to its value, whatever its digits are. -/
theorem cut_numeral (h : Ends rest) {m : Nat} {kind : Kind} (hkind : Kind.ofNat? m = some kind)
    {w : List Char} (hw : Numeral m w) :
    ∃ c cs, w = c :: cs ∧ cut c (cs ++ rest) = ⟨w, .token kind, rest⟩ := by
  cases hw with
  | decimal =>
    have hdigit := h.stops (p := Char.isDigit) (by decide)
    exact cut_decimal hdigit (fraction_ends h) (exponent_ends h) hkind
  | @hex ds hds =>
    have hdigits : ∀ c ∈ ds, isHexDigit c := by
      intro c hc
      have hmem : c.toLower ∈ Nat.toDigits 16 m := hds ▸ List.mem_map_of_mem hc
      rw [isHexDigit, ← Decimal.hexDigit?_toLower]
      exact Decimal.hexDigit?_of_mem_toDigits hmem
    obtain ⟨htake, hdrop⟩ := takeWhile_stops hdigits (h.stops (p := isHexDigit) (by decide))
    have hne : ds.isEmpty = false := by
      cases ds with
      | nil => exact absurd hds.symm Nat.toDigits_ne_nil
      | cons => rfl
    have hvalue : Decimal.hexValue ds = m := by
      rw [← Decimal.hexValue_map_toLower, hds, Decimal.hexValue_toDigits]
    refine ⟨'$', ds, rfl, ?_⟩
    change hexNumber (ds ++ rest) = _
    simp only [hexNumber, htake, hdrop, hne, hvalue, hkind, orFault, Bool.false_eq_true, if_false]

/-- What is no ASCII character is no letter, digit or underscore of a name either. -/
theorem lt_of_isAlphanum {c : Char} (hc : c.isAlphanum) : c.toNat < 128 := by
  simp only [Char.isAlphanum, Char.isAlpha, Char.isUpper, Char.isLower, Char.isDigit, Bool.or_eq_true,
    Bool.and_eq_true, decide_eq_true_eq] at hc
  have hle : c.toNat ≤ 122 := by
    rcases hc with (⟨-, hc⟩ | ⟨-, hc⟩) | ⟨-, hc⟩
    · exact Nat.le_trans hc (by decide)
    · exact hc
    · exact Nat.le_trans hc (by decide)
  omega

/-- A name may be made of ASCII letters, digits and underscores. -/
theorem isName_of_ascii {c : Char} {cs : List Char} (hc : c.isAlpha ∨ c = '_')
    (hcs : ∀ d ∈ cs, d.isAlphanum ∨ d = '_') : IsName (c :: cs) := by
  refine ⟨c, cs, rfl, hc.imp_left fun hc => ?_, fun d hd => ?_⟩
  · exact Text.forall_ascii (P := fun c => c.isAlpha → Text.isLetter c) (by decide)
      (lt_of_isAlphanum (by simp [Char.isAlphanum, hc])) hc
  · rcases hcs d hd with hd | rfl
    · exact Text.forall_ascii (P := fun c => c.isAlphanum → isWordChar c) (by decide)
        (lt_of_isAlphanum hd) hd
    · rfl

/-- White space ends a word. -/
theorem isWordChar_of_isBlank {c : Char} (hc : Text.isBlank c) : isWordChar c = false :=
  Text.forall_blank (P := fun c => isWordChar c = false) (by decide +kernel) hc

theorem isBlank_of_isLetter {c : Char} (hc : Text.isLetter c) : Text.isBlank c = false := by
  refine Bool.eq_false_iff.mpr fun hblank => ?_
  have hword := isWordChar_of_isBlank hblank
  simp [isWordChar, Text.isLetterOrNumeral, hc] at hword

theorem isDigit_of_isLetter {c : Char} (hc : Text.isLetter c) : c.isDigit = false := by
  refine Bool.eq_false_iff.mpr fun hdigit => ?_
  have hletter := Text.forall_ascii (P := fun c => c.isDigit → Text.isLetter c = false) (by decide)
    (lt_of_isAlphanum (by simp [Char.isAlphanum, hdigit])) hdigit
  rw [hc] at hletter
  cases hletter

theorem cut_letter {c : Char} (hc : Text.isLetter c ∨ c = '_') (cs : List Char) :
    cut c cs = ⟨c :: cs.takeWhile isWordChar,
      .token (wordKind (String.ofList (c :: cs.takeWhile isWordChar))), cs.dropWhile isWordChar⟩ := by
  rcases hc with hc | rfl
  · have hne : ∀ d, Text.isLetter d = false → c ≠ d := by
      rintro d hd rfl
      rw [hc] at hd
      cases hd
    have hbrace : c ≠ '{' := hne _ rfl
    have hparen : c ≠ '(' := hne _ rfl
    have hslash : c ≠ '/' := hne _ rfl
    have hquote : ¬(c = '\'' ∨ c = '#') := not_or.mpr ⟨hne _ rfl, hne _ rfl⟩
    have hdollar : c ≠ '$' := hne _ rfl
    simp only [cut, isBlank_of_isLetter hc, hbrace, hparen, hslash, hquote, hdollar,
      isDigit_of_isLetter hc, hc, true_or, false_and, if_false, if_true, Bool.false_eq_true]
  · rfl

/-- A word is cut off whole if nothing that could belong to it comes behind it. -/
theorem cut_word (h : ∀ d ∈ rest.head?, isWordChar d = false) {w : List Char} (hw : IsName w) :
    ∃ c cs, w = c :: cs ∧
      cut c (cs ++ rest) = ⟨w, .token (wordKind (String.ofList w)), rest⟩ := by
  obtain ⟨c, cs, rfl, hc, hcs⟩ := hw
  obtain ⟨htake, hdrop⟩ := takeWhile_stops hcs h
  refine ⟨c, cs, rfl, ?_⟩
  rw [cut_letter hc, htake, hdrop]

/-- A character that is lowered to a small letter is a letter. -/
theorem isAlpha_of_toLower {c : Char} (h : c.toLower.isLower) : c.isAlpha := by
  by_cases hc : c.toNat < 128
  · exact Text.forall_ascii (P := fun c => c.toLower.isLower → c.isAlpha) (by decide) hc h
  · rw [Text.toLower_of_le (by omega)] at h
    simp [Char.isAlpha, h]

theorem isLower_text (k : Keyword) : k.text.toList ≠ [] ∧ ∀ c ∈ k.text.toList, c.isLower := by
  refine ⟨?_, List.all_eq_true.mp ?_⟩
  · cases k <;> decide
  · cases k <;> decide

/-- A keyword is a name in its form. -/
theorem isName_keyword {k : Keyword} {w : List Char} (h : w.map Char.toLower = k.text.toList) :
    IsName w := by
  obtain ⟨hne, hlower⟩ := isLower_text k
  have halpha : ∀ c ∈ w, c.isAlpha := by
    intro c hc
    exact isAlpha_of_toLower (hlower _ (h ▸ List.mem_map_of_mem hc))
  cases w with
  | nil => exact absurd h.symm hne
  | cons c cs =>
    obtain ⟨hc, hcs⟩ := List.forall_mem_cons.mp halpha
    exact isName_of_ascii (.inl hc) fun d hd => .inl (by simp [Char.isAlphanum, hcs d hd])

theorem lower_ofList (w : List Char) :
    Text.lower (String.ofList w) = String.ofList (w.map Char.toLower) := by
  rw [Text.lower, String.toList_ofList]

theorem find?_text (k : Keyword) : Keyword.all.find? (fun k' => k'.text == k.text) = some k := by
  cases k <;> decide

theorem wordKind_keyword {k : Keyword} {w : List Char} (h : w.map Char.toLower = k.text.toList) :
    wordKind (String.ofList w) = .keyword k := by
  have hfound : Keyword.ofWord? (String.ofList w) = some k := by
    rw [Keyword.ofWord?, lower_ofList, h, String.ofList_toList]
    exact find?_text k
  rw [wordKind, hfound]

theorem wordKind_free {w : List Char} (h : ∀ k : Keyword, w.map Char.toLower ≠ k.text.toList) :
    wordKind (String.ofList w) = .identifier (String.ofList w) := by
  have hnone : Keyword.ofWord? (String.ofList w) = none := by
    refine List.find?_eq_none.mpr fun k _ hk => h k ?_
    rw [lower_ofList] at hk
    rw [eq_of_beq hk, String.toList_ofList]
  rw [wordKind, hnone]

/-- An operator or a punctuation mark before white space is cut off whole. -/
theorem cut_symbol (h : Ends rest) (s : Symbol) : ∃ c cs, s.text.toList = c :: cs ∧
    cut c (cs ++ rest) = ⟨s.text.toList, .token (.symbol s), rest⟩ := by
  cases rest with
  | nil => cases s <;> exact ⟨_, _, rfl, rfl⟩
  | cons d ds =>
    obtain ⟨hstar, hslash, hequal, hdot, hgreater⟩ := Text.forall_blank
      (P := fun d => d ≠ '*' ∧ d ≠ '/' ∧ d ≠ '=' ∧ d ≠ '.' ∧ d ≠ '>') (by decide) (h d rfl)
    have hparen : cut '(' (d :: ds) = symbol '(' (d :: ds) := by
      simp [cut, startsWith, hstar, Text.isBlank, Text.isLetter]
    have hline : cut '/' (d :: ds) = symbol '/' (d :: ds) := by
      simp [cut, startsWith, hslash, Text.isBlank, Text.isLetter]
    -- these signs begin others, which white space keeps them from
    have hcolon : symbol ':' (d :: ds) = one .colon ':' (d :: ds) := by simp [symbol, hequal]
    have hpoint : symbol '.' (d :: ds) = one .dot '.' (d :: ds) := by simp [symbol, hdot]
    have hmore : symbol '>' (d :: ds) = one .greater '>' (d :: ds) := by simp [symbol, hequal]
    have hless : symbol '<' (d :: ds) = one .less '<' (d :: ds) := by simp [symbol, hequal, hgreater]
    cases s
    case leftParen => exact ⟨'(', [], rfl, hparen⟩
    case slash => exact ⟨'/', [], rfl, hline⟩
    case colon => exact ⟨':', [], rfl, hcolon⟩
    case dot => exact ⟨'.', [], rfl, hpoint⟩
    case greater => exact ⟨'>', [], rfl, hmore⟩
    case less => exact ⟨'<', [], rfl, hless⟩
    all_goals exact ⟨_, _, rfl, rfl⟩

/-- Whatever the way in which a token is written, it is cut off as this token. -/
theorem cut_printed (h : Ends rest) {k : Kind} {w : List Char} (hk : k.Printed w) :
    ∃ c cs, w = c :: cs ∧ cut c (cs ++ rest) = ⟨w, .token k, rest⟩ := by
  have hword : ∀ d ∈ rest.head?, isWordChar d = false := fun d hd => isWordChar_of_isBlank (h d hd)
  cases hk with
  | keyword hw =>
    rw [← wordKind_keyword hw]
    exact cut_word hword (isName_keyword hw)
  | symbol s => exact cut_symbol h s
  | identifier hname hfree =>
    rw [← wordKind_free hfree]
    exact cut_word hword hname
  | integer hn hw => exact cut_numeral h (ofNat?_integer hn) hw
  | long hn hlong hw => exact cut_numeral h (ofNat?_long hn hlong) hw
  | char c => exact cut_char h c
  | @string s hs =>
    have hcut := cut_string h s.toList (by rwa [String.length_toList])
    rwa [String.ofList_toList] at hcut

end

theorem scanFrom_nil (p : Position) : scanFrom p [] = [.ok ⟨.eof, p⟩] := by
  rw [scanFrom.eq_def]

/-- The results that a piece of a text gives where it stands. -/
def Piece.results (p : Position) : Piece → List (Except LexError Token)
  | .blank => []
  | .token kind => [.ok ⟨kind, p⟩]
  | .fault cause before => [.error ⟨cause, p.after before⟩]

theorem scanFrom_cut {c : Char} {cs w rest : List Char} {found : Piece} (p : Position)
    (h : cut c cs = ⟨w, found, rest⟩) :
    scanFrom p (c :: cs) = found.results p ++ scanFrom (p.after w) rest := by
  rw [scanFrom.eq_def]
  cases found <;> simp only [h] <;> rfl

theorem scanFrom_token {c : Char} {cs w rest : List Char} {k : Kind} (p : Position)
    (h : cut c cs = ⟨w, .token k, rest⟩) :
    scanFrom p (c :: cs) = .ok ⟨k, p⟩ :: scanFrom (p.after w) rest :=
  scanFrom_cut p h

theorem scanFrom_blank {c : Char} {cs w rest : List Char} (p : Position)
    (h : cut c cs = ⟨w, .blank, rest⟩) : scanFrom p (c :: cs) = scanFrom (p.after w) rest :=
  scanFrom_cut p h

theorem cut_blank {c : Char} (hc : Text.isBlank c) (cs : List Char) : cut c cs = ⟨[c], .blank, cs⟩ := by
  rw [cut, if_pos hc]

theorem cut_braces {body : List Char} (hbody : '}' ∉ body) (hplain : body.head? ≠ some '$')
    (cs : List Char) :
    cut '{' (body ++ '}' :: cs) = ⟨'{' :: body ++ ['}'], .blank, cs⟩ := by
  obtain ⟨htake, hdrop⟩ := @takeWhile_stops ('}' :: cs) (fun c => decide (c ≠ '}')) body
    (fun c hc => decide_eq_true fun heq => hbody (heq ▸ hc)) (by simp)
  have hnone : directive? body = none := by
    cases body with
    | nil => rfl
    | cons c body =>
      rw [directive?.eq_def]
      split
      · next heq => cases heq; exact absurd rfl hplain
      · rfl
  change braceComment (body ++ '}' :: cs) = _
  rw [braceComment, htake, hdrop, hnone]

/-- A comment ends with the first star before a parenthesis. -/
theorem starComment?_stars {body : List Char} (hbody : ¬['*', ')'] <:+: body) (cs : List Char) :
    starComment? (body ++ '*' :: ')' :: cs) = some (body ++ ['*', ')'], cs) := by
  induction body with
  | nil => rfl
  | cons c body ih =>
    have htail : ¬['*', ')'] <:+: body := fun h => hbody (List.infix_cons h)
    have hhere : ∀ tail, c = '*' → body ++ '*' :: ')' :: cs ≠ ')' :: tail := by
      rintro tail rfl heq
      cases body with
      | nil => cases heq
      | cons d body =>
        cases heq
        exact hbody ⟨[], body, rfl⟩
    rw [List.cons_append, starComment?.eq_3 _ _ hhere, ih htail]
    rfl

theorem cut_stars {body : List Char} (hbody : ¬['*', ')'] <:+: body) (cs : List Char) :
    cut '(' ('*' :: (body ++ '*' :: ')' :: cs)) =
      ⟨'(' :: '*' :: (body ++ ['*', ')']), .blank, cs⟩ := by
  change parenComment (body ++ '*' :: ')' :: cs) = _
  rw [parenComment, starComment?_stars hbody]

theorem cut_slashes {body : List Char} (hbody : '\n' ∉ body) (cs : List Char) :
    cut '/' ('/' :: (body ++ '\n' :: cs)) = ⟨'/' :: '/' :: body, .blank, '\n' :: cs⟩ := by
  have hline : '\n' ∉ '/' :: body := by simpa using hbody
  obtain ⟨htake, hdrop⟩ := @takeWhile_stops ('\n' :: cs) (fun c => decide (c ≠ '\n')) ('/' :: body)
    (fun c hc => decide_eq_true fun heq => hline (heq ▸ hc)) (by simp)
  rw [List.cons_append] at htake hdrop
  change (⟨'/' :: List.takeWhile _ _, .blank, List.dropWhile _ _⟩ : Cut Piece) = _
  rw [htake, hdrop]

/-- Filler is passed over. -/
theorem Filler.scanFrom {filler : List Char} (h : Filler filler) (p : Position) (rest : List Char) :
    Token.scanFrom p (filler ++ rest) = Token.scanFrom (p.after filler) rest := by
  induction h generalizing p with
  | nil => rfl
  | blank hc _ ih =>
    rw [List.cons_append, scanFrom_blank p (cut_blank hc _), ih]
    rfl
  | @braces body cs hbody hplain _ ih =>
    have hcut := scanFrom_blank p (cut_braces hbody hplain (cs ++ rest))
    simp only [List.cons_append, List.append_assoc] at hcut ⊢
    rw [hcut, ih]
    simp [Position.after_append]
  | @stars body cs hbody _ ih =>
    have hcut := scanFrom_blank p (cut_stars hbody (cs ++ rest))
    simp only [List.cons_append, List.append_assoc] at hcut ⊢
    rw [hcut, ih]
    simp [Position.after_append]
  | @slashes body cs hbody _ ih =>
    -- the comment leaves the newline, which is white space
    have hcut := scanFrom_blank p (cut_slashes hbody (cs ++ rest))
    simp only [List.cons_append, List.append_assoc] at hcut ⊢
    rw [hcut, scanFrom_blank _ (cut_blank (by decide) _), ih]
    simp [Position.after_append]

theorem Separator.ends {sep : List Char} (h : Separator sep) (rest : List Char) : Ends (sep ++ rest) := by
  cases h with
  | mk hc _ => exact ends_cons hc

theorem Separator.filler {sep : List Char} (h : Separator sep) : Filler sep := by
  cases h with
  | mk hc hcs => exact .blank hc hcs

theorem scanFrom_printed {rest w : List Char} (h : Ends rest) {k : Kind} (hk : k.Printed w) (p : Position) :
    scanFrom p (w ++ rest) = .ok ⟨k, p⟩ :: scanFrom (p.after w) rest := by
  obtain ⟨c, cs, rfl, hcut⟩ := cut_printed h hk
  exact scanFrom_token p hcut

/-- A row of tokens is scanned to these tokens, and nothing else. -/
theorem Prints.scanFrom {ks : List Kind} {cs : List Char} (h : Prints ks cs) (p : Position) :
    ∃ ts : List Token, Token.scanFrom p cs = ts.map .ok ∧ ts.map (·.kind) = ks ++ [.eof] := by
  induction h generalizing p with
  | nil => exact ⟨[⟨.eof, p⟩], scanFrom_nil p, rfl⟩
  | @single k w hk =>
    have hscan := scanFrom_printed ends_nil hk p
    rw [List.append_nil] at hscan
    refine ⟨[⟨k, p⟩, ⟨.eof, p.after w⟩], ?_, rfl⟩
    rw [hscan, scanFrom_nil]
    rfl
  | @cons k next ks w sep cs hk hsep _ ih =>
    obtain ⟨ts, hscan, hkinds⟩ := ih ((p.after w).after sep)
    refine ⟨⟨k, p⟩ :: ts, ?_, ?_⟩
    · rw [scanFrom_printed (hsep.ends cs) hk, hsep.filler.scanFrom, hscan]
      rfl
    · rw [List.map_cons, hkinds]
      rfl

/-- The text of a row of tokens, each written in any of its ways and kept apart from the next one by
white space and comments, has no fault, and its tokens are that row and the one that marks the end. -/
theorem scanAll_prints {ks : List Kind} {source : String} (h : Prints ks source.toList) (unit : String) :
    (scanAll unit source).map (·.map (·.kind)) = .ok (ks ++ [.eof]) := by
  obtain ⟨ts, hscan, hkinds⟩ := h.scanFrom (.start unit)
  rw [scanAll, scan, hscan, mapM_id_map_ok, ← hkinds]
  rfl

/-- A keyword in mixed case, a name, numbers in both forms, literals with quotes and newlines, and all
kinds of comments. -/
theorem scanAll_prints_mixed :
    let kinds : List Kind := [.keyword .while_, .identifier "_x1", .symbol .less, .integer 255,
      .symbol .dotDot, .long 2147483648, .string "it's\nso", .char '\n', .symbol .slash, .string ""]
    let source := "wHile _x1\t{ }< $fF // 1\n.. 2147483648 (* * ) **)'it''s'#10'so' #10 / ''"
    Prints kinds source.toList ∧
      (scanAll "test" source).map (·.map (·.kind)) = .ok (kinds ++ [.eof]) := by
  intro kinds source
  have hblank : Separator " ".toList := .mk (by decide) .nil
  have hbraces : Separator "\t{ }".toList :=
    .mk (by decide) (@Filler.braces [' '] [] (by decide) (by decide) .nil)
  have hslashes : Separator " // 1\n".toList :=
    .mk (by decide) (@Filler.slashes [' ', '1'] [] (by decide) .nil)
  have hstars : Separator " (* * ) **)".toList :=
    .mk (by decide) (@Filler.stars [' ', '*', ' ', ')', ' ', '*'] [] (by decide) .nil)
  have hword : IsName "_x1".toList := @isName_of_ascii '_' ['x', '1'] (.inr rfl) (by simp)
  have hfree : ∀ k : Keyword, "_x1".toList.map Char.toLower ≠ k.text.toList := by
    intro k
    cases k <;> decide
  have hdecimal : Numeral 2147483648 "2147483648".toList := .decimal
  have hhex : Numeral 255 "$fF".toList := @Numeral.hex 255 ['f', 'F'] (by decide)
  have hname : Kind.Printed (.identifier "_x1") "_x1".toList := by
    rw [← String.ofList_toList (s := "_x1")]
    exact .identifier hword hfree
  have hkeyword : Kind.Printed (.keyword .while_) "wHile".toList := .keyword (by decide)
  have hsmall : Kind.Printed (.integer 255) "$fF".toList := .integer (by decide) hhex
  have hlarge : Kind.Printed (.long 2147483648) "2147483648".toList :=
    .long (by decide) (by decide) hdecimal
  have hprints := Prints.cons hkeyword hblank <| .cons hname hbraces <| .cons (.symbol .less) hblank <|
    .cons hsmall hslashes <| .cons (.symbol .dotDot) hblank <| .cons hlarge hstars <|
    .cons (.string (s := "it's\nso") (by decide)) hblank <| .cons (.char '\n') hblank <|
    .cons (.symbol .slash) hblank <| .single (.string (s := "") (by decide))
  have hsource : Prints kinds source.toList := by
    convert hprints using 1
    decide +kernel
  exact ⟨hsource, scanAll_prints hsource "test"⟩

end Token

end Pascal
