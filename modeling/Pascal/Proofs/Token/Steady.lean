import Pascal.Proofs.Token.Printed

/-!
# Pieces of a text

A piece of a text is found by what it consists of and by what comes right behind it. So it stays the same
if the text is cut off somewhere behind it.
-/

namespace Pascal.Token

variable {α : Type} {c : Char} {cs t : List Char}

/-- `f` takes the same piece off a text wherever the text ends behind that piece. The characters of the
piece come behind those in `opening`, which were read before. -/
def Steady (f : List Char → Cut α) (opening cs : List Char) : Prop :=
  ∃ w found rest, cs = w ++ rest ∧ ∀ t, t <+: rest → f (w ++ t) = ⟨opening ++ w, found, t⟩

namespace Steady

variable {f g : List Char → Cut α} {opening : List Char} {d : Char}

theorem congr (h : Steady f opening cs) (hfg : ∀ t, t <+: cs → g t = f t) : Steady g opening cs := by
  obtain ⟨w, found, rest, rfl, hw⟩ := h
  refine ⟨w, found, rest, rfl, fun t ht => ?_⟩
  rw [hfg _ ((List.prefix_append_right_inj w).mpr ht), hw t ht]

/-- A reader that looks at the next character and leaves the text behind it to another one. -/
theorem behind (h : Steady g (opening ++ [d]) cs) (hfg : ∀ t, f (d :: t) = g t) :
    Steady f opening (d :: cs) := by
  obtain ⟨w, found, rest, rfl, hw⟩ := h
  refine ⟨d :: w, found, rest, rfl, fun t ht => ?_⟩
  rw [List.cons_append, hfg, hw t ht, List.append_assoc, List.singleton_append]

/-- A reader that takes the first character of a text takes it as an opening of the text behind. -/
theorem opened (h : Steady f [] (c :: cs)) (hrest : (f (c :: cs)).rest.length ≤ cs.length) :
    Steady (fun cs => f (c :: cs)) [c] cs := by
  obtain ⟨w, found, rest, heq, hw⟩ := h
  cases w with
  | nil =>
    obtain rfl : c :: cs = rest := heq
    have hwhole : f (c :: cs) = ⟨[], found, c :: cs⟩ := hw _ List.prefix_rfl
    rw [hwhole] at hrest
    exact absurd hrest (Nat.not_succ_le_self _)
  | cons d w =>
    cases heq
    exact ⟨w, found, rest, rfl, fun t ht => hw t ht⟩

end Steady

theorem prefix_head? {rest : List Char} {P : Char → Prop} (h : t <+: rest)
    (hrest : ∀ c ∈ rest.head?, P c) : ∀ c ∈ t.head?, P c := by
  obtain ⟨u, rfl⟩ := h
  cases t with
  | nil => exact nofun
  | cons c t => exact hrest

theorem head?_dropWhile (p : Char → Bool) (cs : List Char) :
    ∀ c ∈ (cs.dropWhile p).head?, p c = false := by
  intro c hc
  have := List.head?_dropWhile_not p cs
  rw [hc] at this
  exact this

theorem prefix_takeWhile {p : Char → Bool} (h : t <+: cs.dropWhile p) :
    (cs.takeWhile p ++ t).takeWhile p = cs.takeWhile p ∧ (cs.takeWhile p ++ t).dropWhile p = t :=
  takeWhile_stops (fun _ hc => List.mem_takeWhile_imp hc)
    (prefix_head? h (head?_dropWhile p cs))

theorem steady_quotedText (cs : List Char) : Steady quotedText [] cs := by
  fun_induction quotedText cs with
  | case1 => exact ⟨[], none, [], rfl, fun t ht => by rw [List.prefix_nil.mp ht]; rfl⟩
  | case2 cs r ih =>
    obtain ⟨w, found, rest, rfl, hw⟩ := ih
    refine ⟨'\'' :: '\'' :: w, found.map ('\'' :: ·), rest, rfl, fun t ht => ?_⟩
    rw [List.cons_append, List.cons_append, quotedText.eq_2, hw t ht]
    rfl
  | case3 cs hquote =>
    refine ⟨['\''], some [], cs, rfl, fun t ht => quotedText_close ?_⟩
    have hcs : ∀ d ∈ cs.head?, d ≠ '\'' := by
      rintro d hd rfl
      obtain ⟨ds, rfl⟩ := List.head?_eq_some_iff.mp hd
      exact hquote ds rfl rfl
    exact fun hhead => prefix_head? ht hcs _ hhead rfl
  | case4 cs hquote hne =>
    refine ⟨['\n'], none, cs, rfl, fun t ht => ?_⟩
    rw [List.cons_append, quotedText.eq_3 _ _ (by simp), if_neg hne, if_pos rfl]
    rfl
  | case5 c cs hquote hc hline r ih =>
    obtain ⟨w, found, rest, rfl, hw⟩ := ih
    refine ⟨c :: w, found.map (c :: ·), rest, rfl, fun t ht => ?_⟩
    rw [List.cons_append, quotedText.eq_3 _ _ (by simp [hc]), if_neg hc, if_neg hline, hw t ht]
    rfl

theorem steady_stringPieces (cs : List Char) : Steady stringPieces [] cs := by
  fun_induction stringPieces cs with
  | case1 cs piece hnone =>
    obtain ⟨w, found, rest, rfl, hw⟩ := steady_quotedText cs
    obtain rfl : found = none := by
      rw [← hnone]
      exact (congrArg Cut.found (hw rest List.prefix_rfl)).symm
    exact ⟨'\'' :: w, .error (.unterminatedString, []), rest, rfl,
      fun t ht => stringPieces_unterminated (hw t ht)⟩
  | case2 cs piece text htext hle more taken ih =>
    obtain ⟨w, found, rest, rfl, hw⟩ := steady_quotedText cs
    have hpiece : piece = ⟨w, found, rest⟩ := hw rest List.prefix_rfl
    rw [hpiece] at htext ih
    obtain rfl : found = some text := htext
    obtain ⟨w', found', rest', hrest, hw'⟩ := ih
    obtain rfl : rest = w' ++ rest' := hrest
    refine ⟨'\'' :: w ++ w', spelled ('\'' :: w) text found', rest', by simp, fun t ht => ?_⟩
    have hmore := hw (w' ++ t) ((List.prefix_append_right_inj w').mpr ht)
    rw [List.append_assoc, List.cons_append, stringPieces_quoted hmore, hw' t ht]
    rfl
  | case3 rest digits hnone =>
    refine ⟨'#' :: digits, .error (.invalidCharCode (String.ofList digits), []),
      rest.dropWhile Char.isDigit, by simp [digits], fun t ht => ?_⟩
    obtain ⟨htake, hdrop⟩ := prefix_takeWhile ht
    exact stringPieces_noCode htake hdrop hnone
  | case4 rest digits c hc hle more taken ih =>
    obtain ⟨w, found, last, hrest, hw⟩ := ih
    refine ⟨'#' :: digits ++ w, spelled ('#' :: digits) [c] found, last, ?_, fun t ht => ?_⟩
    · rw [List.append_assoc, ← hrest]
      simp [digits]
    · have hmore := (List.prefix_append_right_inj w).mpr ht
      obtain ⟨htake, hdrop⟩ := prefix_takeWhile (hrest ▸ hmore)
      rw [List.append_assoc, List.cons_append, stringPieces_code htake hdrop hc, hw t ht]
      rfl
  | case5 cs hquote hcode =>
    refine ⟨[], .ok [], cs, rfl, fun t ht => stringPieces_end (prefix_head? ht fun d hd => ?_)⟩
    obtain ⟨ds, rfl⟩ := List.head?_eq_some_iff.mp hd
    exact ⟨fun h => hquote ds (h ▸ rfl), fun h => hcode ds (h ▸ rfl)⟩

theorem prefix_fraction (h : fraction cs = ([], cs)) (ht : t <+: cs) : fraction t = ([], t) := by
  obtain ⟨u, rfl⟩ := ht
  fun_cases fraction t with
  | case1 d rest hd => simp [fraction, hd] at h
  | case2 | case3 => rfl

theorem steady_fraction (cs : List Char) :
    ∃ w rest, cs = w ++ rest ∧ ∀ t, t <+: rest → fraction (w ++ t) = (w, t) := by
  have hnone : fraction cs = ([], cs) →
      ∃ w rest, cs = w ++ rest ∧ ∀ t, t <+: rest → fraction (w ++ t) = (w, t) :=
    fun h => ⟨[], cs, rfl, fun t ht => prefix_fraction h ht⟩
  revert hnone
  fun_cases fraction cs with
  | case1 d rest hd =>
    intro _
    refine ⟨'.' :: d :: rest.takeWhile Char.isDigit, rest.dropWhile Char.isDigit, by simp, fun t ht => ?_⟩
    obtain ⟨htake, hdrop⟩ := prefix_takeWhile ht
    simp only [List.cons_append, fraction, hd, if_true, htake, hdrop]
  | case2 | case3 => exact fun h => h rfl

theorem prefix_exponent (h : exponent cs = ([], cs)) (ht : t <+: cs) : exponent t = ([], t) := by
  obtain ⟨u, rfl⟩ := ht
  fun_cases exponent t with
  | case1 e s rest he hs => simp_all [exponent]
  | case2 e s he hs hsign d rest hd => simp_all [exponent]
  | _ => rfl

theorem steady_exponent (cs : List Char) :
    ∃ w rest, cs = w ++ rest ∧ ∀ t, t <+: rest → exponent (w ++ t) = (w, t) := by
  have hnone : exponent cs = ([], cs) →
      ∃ w rest, cs = w ++ rest ∧ ∀ t, t <+: rest → exponent (w ++ t) = (w, t) :=
    fun h => ⟨[], cs, rfl, fun t ht => prefix_exponent h ht⟩
  revert hnone
  fun_cases exponent cs with
  | case1 e s rest he hs =>
    intro _
    refine ⟨e :: s :: rest.takeWhile Char.isDigit, rest.dropWhile Char.isDigit, by simp, fun t ht => ?_⟩
    obtain ⟨htake, hdrop⟩ := prefix_takeWhile ht
    simp only [List.cons_append, exponent, he, hs, if_true, htake, hdrop]
  | case2 e s he hs hsign d rest hd =>
    intro _
    refine ⟨e :: s :: d :: rest.takeWhile Char.isDigit, rest.dropWhile Char.isDigit, by simp,
      fun t ht => ?_⟩
    obtain ⟨htake, hdrop⟩ := prefix_takeWhile ht
    simp only [List.cons_append, exponent, he, hs, hsign, hd, if_true, Bool.false_eq_true, if_false,
      htake, hdrop]
  | _ => exact fun h => h rfl

/-- What a number is, by the digits before its fraction, its fraction and its exponent. -/
def numeral (whole frac exp : List Char) : Piece :=
  orFault (whole ++ frac ++ exp)
    (if frac.isEmpty && exp.isEmpty then Kind.ofNat? (Decimal.value whole)
    else (Decimal.magnitude? (whole ++ frac ++ exp)).map Kind.real)

theorem number_eq {whole frac exp afterWhole afterFrac rest : List Char}
    (hwhole : cs.takeWhile Char.isDigit = whole ∧ cs.dropWhile Char.isDigit = afterWhole)
    (hfrac : fraction afterWhole = (frac, afterFrac)) (hexp : exponent afterFrac = (exp, rest)) :
    number cs = ⟨whole ++ frac ++ exp, numeral whole frac exp, rest⟩ := by
  simp only [number, hwhole, hfrac, hexp, numeral]

theorem steady_number (cs : List Char) : Steady number [] cs := by
  obtain ⟨frac, afterFrac, hwhole, hfrac⟩ := steady_fraction (cs.dropWhile Char.isDigit)
  obtain ⟨exp, rest, rfl, hexp⟩ := steady_exponent afterFrac
  refine ⟨cs.takeWhile Char.isDigit ++ frac ++ exp, numeral (cs.takeWhile Char.isDigit) frac exp, rest,
    ?_, fun t ht => ?_⟩
  · rw [List.append_assoc, List.append_assoc, ← hwhole, List.takeWhile_append_dropWhile]
  · have hbehind := (List.prefix_append_right_inj exp).mpr ht
    have hafter := (List.prefix_append_right_inj frac).mpr hbehind
    rw [List.append_assoc, List.append_assoc]
    exact number_eq (prefix_takeWhile (hwhole ▸ hafter)) (hfrac _ hbehind) (hexp t ht)

/-- What is taken as long as its characters have a property ends before the first that has it not. -/
theorem steady_takeWhile (p : Char → Bool) (g : List Char → α) (opening cs : List Char) :
    Steady (fun cs => ⟨opening ++ cs.takeWhile p, g (cs.takeWhile p), cs.dropWhile p⟩) opening cs := by
  refine ⟨cs.takeWhile p, g (cs.takeWhile p), cs.dropWhile p, List.takeWhile_append_dropWhile.symm,
    fun t ht => ?_⟩
  obtain ⟨htake, hdrop⟩ := prefix_takeWhile ht
  simp only [htake, hdrop]

/-- What a comment in braces is, by its inside. -/
def braced (body : List Char) : Piece :=
  match directive? body with
  | some name => .token (.includes name)
  | none => .blank

theorem steady_braceComment (cs : List Char) : Steady braceComment ['{'] cs := by
  have hcs := List.takeWhile_append_dropWhile (p := fun c => decide (c ≠ '}')) (l := cs)
  have htaken := @prefix_takeWhile cs
  cases hdrop : cs.dropWhile (· ≠ '}') with
  | nil =>
    refine ⟨cs, .fault .unterminatedComment [], [], (List.append_nil cs).symm, fun t ht => ?_⟩
    rw [hdrop, List.append_nil] at hcs
    rw [List.prefix_nil.mp ht, List.append_nil, braceComment, hdrop, hcs]
    rfl
  | cons close rest =>
    rw [hdrop] at hcs
    refine ⟨cs.takeWhile (· ≠ '}') ++ [close], braced (cs.takeWhile (· ≠ '}')), rest,
      by simpa using hcs.symm, fun t ht => ?_⟩
    obtain ⟨htake, hdrop⟩ := htaken (hdrop ▸ (List.prefix_cons_inj close).mpr ht)
    rw [List.append_assoc, List.singleton_append, braceComment, htake, hdrop]
    rfl

theorem starComment?_eq_some {body rest : List Char} (h : starComment? cs = some (body, rest)) :
    cs = body ++ rest ∧ body ≠ [] ∧ ∀ t, starComment? (body ++ t) = some (body, t) := by
  fun_induction starComment? cs generalizing body with
  | case1 => cases h
  | case2 rest => cases h; exact ⟨rfl, by simp, fun t => rfl⟩
  | case3 c cs hne ih =>
    obtain ⟨⟨body, rest⟩, hbody, heq⟩ := Option.map_eq_some_iff.mp h
    cases heq
    obtain ⟨rfl, hnil, hmore⟩ := ih hbody
    refine ⟨rfl, by simp, fun t => ?_⟩
    have hne' : ∀ tail, c = '*' → body ++ t ≠ ')' :: tail := by
      intro tail hc heq
      cases body with
      | nil => exact hnil rfl
      | cons d body =>
        cases heq
        exact hne _ hc rfl
    rw [List.cons_append, starComment?.eq_3 _ _ hne', hmore]
    rfl

theorem steady_parenComment (cs : List Char) : Steady parenComment ['(', '*'] cs := by
  cases h : starComment? cs with
  | none =>
    refine ⟨cs, .fault .unterminatedComment [], [], (List.append_nil cs).symm, fun t ht => ?_⟩
    rw [List.prefix_nil.mp ht, List.append_nil, parenComment, h]
    rfl
  | some r =>
    obtain ⟨body, rest⟩ := r
    obtain ⟨rfl, -, hbody⟩ := starComment?_eq_some h
    refine ⟨body, .blank, rest, rfl, fun t ht => ?_⟩
    rw [parenComment, hbody]
    rfl

theorem steady_symbol (c : Char) (cs : List Char) : Steady (symbol c) [c] cs := by
  have hstart : ∀ {d : Char}, (∀ rest, cs = d :: rest → False) → ∀ {t}, t <+: cs →
      ∀ rest, t = d :: rest → False := by
    rintro d hd t ⟨u, rfl⟩ rest rfl
    exact hd (rest ++ u) rfl
  fun_cases symbol c cs
  case case14 => exact ⟨['='], _, _, rfl, fun t _ => symbol.eq_14 t⟩
  case case15 h => exact ⟨[], _, cs, rfl, fun t ht => symbol.eq_15 t (hstart h ht)⟩
  case case16 => exact ⟨['.'], _, _, rfl, fun t _ => symbol.eq_16 t⟩
  case case17 h => exact ⟨[], _, cs, rfl, fun t ht => symbol.eq_17 t (hstart h ht)⟩
  case case18 => exact ⟨['='], _, _, rfl, fun t _ => symbol.eq_18 t⟩
  case case19 h => exact ⟨[], _, cs, rfl, fun t ht => symbol.eq_19 t (hstart h ht)⟩
  case case20 => exact ⟨['='], _, _, rfl, fun t _ => symbol.eq_20 t⟩
  case case21 => exact ⟨['>'], _, _, rfl, fun t _ => symbol.eq_21 t⟩
  case case22 h h' => exact ⟨[], _, cs, rfl, fun t ht => symbol.eq_22 t (hstart h ht) (hstart h' ht)⟩
  case case23 =>
    refine ⟨[], .fault (.unexpectedCharacter c) [], cs, rfl, fun t ht => ?_⟩
    rw [List.nil_append, symbol]
    · rfl
    all_goals first | assumption | (rintro _ rfl; contradiction)
  all_goals exact ⟨[], _, cs, rfl, fun t _ => rfl⟩

theorem steady_hexNumber (cs : List Char) : Steady hexNumber ['$'] cs :=
  steady_takeWhile isHexDigit (fun digits => orFault ('$' :: digits)
    (if digits.isEmpty then none else Kind.ofNat? (Decimal.hexValue digits))) ['$'] cs

theorem steady_stringLiteral (cs : List Char) : Steady stringLiteral [] cs := by
  obtain ⟨w, found, rest, rfl, hw⟩ := steady_stringPieces cs
  refine ⟨w, (stringLiteral (w ++ rest)).found, rest, rfl, fun t ht => ?_⟩
  simp only [stringLiteral, hw t ht, hw rest List.prefix_rfl]

theorem prefix_startsWith {d : Char} (ht : t <+: cs) (h : startsWith d t) : startsWith d cs := by
  obtain ⟨u, rfl⟩ := ht
  cases t with
  | nil => cases h
  | cons c t => exact h

theorem eq_cons_of_startsWith {d : Char} (h : startsWith d cs) : ∃ ds, cs = d :: ds := by
  cases cs with
  | nil => cases h
  | cons c cs => exact ⟨cs, by rw [eq_of_beq h]⟩

/-- The first piece of a text is the same wherever the text ends behind it. -/
theorem steady_cut (c : Char) (cs : List Char) : Steady (cut c) [c] cs := by
  fun_cases cut c cs
  case case1 hblank => exact ⟨[], .blank, cs, rfl, fun t _ => cut_blank hblank t⟩
  case case2 hbrace =>
    subst hbrace
    exact (steady_braceComment cs).congr fun t _ => rfl
  case case3 h =>
    obtain ⟨rfl, hstar⟩ := h
    obtain ⟨ds, rfl⟩ := eq_cons_of_startsWith hstar
    exact (steady_parenComment ds).behind fun t => rfl
  case case4 h =>
    obtain ⟨rfl, hslash⟩ := h
    obtain ⟨ds, rfl⟩ := eq_cons_of_startsWith hslash
    exact (steady_takeWhile (· ≠ '\n') (fun _ => Piece.blank) ['/', '/'] ds).behind fun t => rfl
  case case5 h =>
    refine ((steady_stringLiteral (c :: cs)).opened (stringLiteral_rest_length_le c cs h)).congr ?_
    rcases h with rfl | rfl <;> exact fun t _ => rfl
  case case6 hdollar =>
    subst hdollar
    exact (steady_hexNumber cs).congr fun t _ => rfl
  case case7 hdigit =>
    exact ((steady_number (c :: cs)).opened (number_rest_length_le c cs hdigit)).congr
      fun t _ => cut_digit hdigit t
  case case8 hletter word =>
    exact (steady_takeWhile isWordChar (fun w => Piece.token (wordKind (String.ofList (c :: w)))) [c]
      cs).congr fun t _ => cut_letter hletter t
  case case9 hblank hbrace hparen hslash hquote hdollar hdigit hletter =>
    refine (steady_symbol c cs).congr fun t ht => ?_
    have hparen' : ¬(c = '(' ∧ startsWith '*' t) := fun h => hparen ⟨h.1, prefix_startsWith ht h.2⟩
    have hslash' : ¬(c = '/' ∧ startsWith '/' t) := fun h => hslash ⟨h.1, prefix_startsWith ht h.2⟩
    rw [cut, if_neg hblank, if_neg hbrace, if_neg hparen', if_neg hslash', if_neg hquote,
      if_neg hdollar, if_neg hdigit, if_neg hletter]

end Pascal.Token
