import Pascal.Proofs.Token.Steady

/-!
# Places of tokens

A scan takes at least one character off a text for each of its results, and it counts lines and columns
along with the characters it takes. So it ends with the text, and the places of its results increase.
-/

namespace Pascal

namespace Position

/-- An earlier line, or an earlier column of the same line. -/
def Before (p q : Position) : Prop := p.line < q.line ∨ p.line = q.line ∧ p.column < q.column

/-- The place behind some text: its line is counted by the newlines, and its column by the characters
behind the last one. -/
def behind (unit : String) (cs : List Char) : Position :=
  ⟨unit, cs.count '\n' + 1, (cs.rtakeWhile (· ≠ '\n')).length + 1⟩

theorem after_start (unit : String) (cs : List Char) : (start unit).after cs = behind unit cs := by
  induction cs using List.reverseRecOn with
  | nil => rfl
  | append_singleton cs c ih =>
    rw [after_append, ih]
    by_cases hc : c = '\n'
    · subst hc
      simp [behind, next]
    · simp [behind, next, hc]

theorem Before.trans {p q r : Position} (h : p.Before q) (h' : q.Before r) : p.Before r := by
  unfold Before at *
  omega

theorem Before.irrefl (p : Position) : ¬p.Before p := by
  unfold Before
  omega

theorem before_next (p : Position) (c : Char) : p.Before (p.next c) := by
  unfold next Before
  split <;> simp

/-- Places behind more of a text come later. -/
theorem before_after (p : Position) {cs : List Char} (h : cs ≠ []) : p.Before (p.after cs) := by
  induction cs generalizing p with
  | nil => exact absurd rfl h
  | cons c cs ih =>
    rw [after_cons]
    cases cs with
    | nil => exact before_next p c
    | cons d cs => exact (before_next p c).trans (ih _ (List.cons_ne_nil d cs))

end Position

namespace Token

variable {w cs rest t : List Char} {found : Piece}

/-- The fault of a piece stands at one of its characters. -/
def Piece.Within (taken : List Char) : Piece → Prop
  | .fault _ before => ∃ d more, taken = before ++ d :: more
  | _ => True

theorem orFault_within (c : Char) (cs literal : List Char) (kind : Option Kind) :
    (orFault literal kind).Within (c :: cs) := by
  cases kind with
  | none => exact ⟨c, cs, rfl⟩
  | some k => exact trivial

theorem braceComment_within (cs : List Char) : (braceComment cs).found.Within (braceComment cs).taken := by
  unfold braceComment
  dsimp only
  split
  · exact ⟨_, _, rfl⟩
  · dsimp only
    split <;> exact trivial

theorem parenComment_within (cs : List Char) : (parenComment cs).found.Within (parenComment cs).taken := by
  unfold parenComment
  split
  · exact trivial
  · exact ⟨_, _, rfl⟩

theorem symbol_within (c : Char) (cs : List Char) : (symbol c cs).found.Within (symbol c cs).taken := by
  fun_cases symbol c cs <;> first | exact trivial | exact ⟨_, _, rfl⟩

theorem number_within {c : Char} (hc : c.isDigit) (cs : List Char) :
    (number (c :: cs)).found.Within (number (c :: cs)).taken := by
  simp only [number, List.takeWhile_cons_of_pos hc]
  exact orFault_within c _ _ _

/-- A fault behind the piece `w` of a literal stands behind the characters of `w`. -/
theorem spelled_within (text : List Char) {more : List Char} {d : Char}
    {found : Except (LexError.Cause × List Char) (List Char)} {cause : LexError.Cause}
    {before : List Char} (h : spelled (d :: w) text found = .error (cause, before))
    (hmore : ∀ cause before, found = .error (cause, before) → ∃ d rest, more = before ++ d :: rest) :
    ∃ d' rest, d :: w ++ more = before ++ d' :: rest := by
  unfold spelled at h
  split at h
  · cases h
  · cases h
    exact ⟨d, w ++ more, rfl⟩
  · next cause' before' _ =>
    cases h
    obtain ⟨d', rest, rfl⟩ := hmore _ _ rfl
    exact ⟨d', rest, (List.append_assoc _ _ _).symm⟩

theorem stringPieces_within (cs : List Char) : ∀ cause before,
    (stringPieces cs).found = .error (cause, before) →
      ∃ d more, (stringPieces cs).taken = before ++ d :: more := by
  fun_induction stringPieces cs with
  | case1 | case3 => rintro cause before ⟨⟩; exact ⟨_, _, rfl⟩
  | case2 cs piece text htext hle more taken ih => exact fun _ _ h => spelled_within text h ih
  | case4 rest digits c hc hle more taken ih => exact fun _ _ h => spelled_within [c] h ih
  | case5 => rintro cause before ⟨⟩

theorem stringLiteral_within (cs : List Char) :
    (stringLiteral cs).found.Within (stringLiteral cs).taken := by
  have hpieces := stringPieces_within cs
  simp only [stringLiteral]
  split
  · exact trivial
  · exact trivial
  · next cause before hfound => exact hpieces cause before hfound

/-- The fault of a piece stands at one of its characters. -/
theorem cut_within (c : Char) (cs : List Char) : (cut c cs).found.Within (cut c cs).taken := by
  fun_cases cut c cs
  case case1 => exact trivial
  case case2 => exact braceComment_within cs
  case case3 => exact parenComment_within _
  case case4 => exact trivial
  case case5 => exact stringLiteral_within _
  case case6 => exact orFault_within _ _ _ _
  case case7 h => exact number_within h cs
  case case8 => exact trivial
  case case9 => exact symbol_within c cs

/-- The place of a token or of a fault. -/
def place : Except LexError Token → Position
  | .ok t => t.pos
  | .error e => e.pos

/-- A text begins with the piece `w`, and so does whatever is left of it if it ends in `rest`. -/
structure Begins (w : List Char) (found : Piece) (rest : List Char) : Prop where
  cut_eq {t : List Char} (ht : t <+: rest) : ∃ c cs, w = c :: cs ∧ cut c (cs ++ t) = ⟨w, found, t⟩

namespace Begins

theorem ne_nil (h : Begins w found rest) : w ≠ [] := by
  obtain ⟨c, cs, rfl, -⟩ := h.cut_eq List.prefix_rfl
  exact List.cons_ne_nil c cs

theorem scan (h : Begins w found rest) (ht : t <+: rest) (p : Position) :
    scanFrom p (w ++ t) = found.results p ++ scanFrom (p.after w) t := by
  obtain ⟨c, cs, rfl, hcut⟩ := h.cut_eq ht
  exact scanFrom_cut p hcut

theorem within (h : Begins w found rest) : found.Within w := by
  obtain ⟨c, cs, -, hcut⟩ := h.cut_eq List.prefix_rfl
  have hwithin := cut_within c (cs ++ rest)
  rwa [hcut] at hwithin

end Begins

theorem exists_begins (c : Char) (cs : List Char) :
    ∃ w found rest, c :: cs = w ++ rest ∧ Begins w found rest := by
  obtain ⟨w, found, rest, rfl, hw⟩ := steady_cut c cs
  exact ⟨c :: w, found, rest, rfl, ⟨fun ht => ⟨c, w, rfl, hw _ ht⟩⟩⟩

/-- What holds of the empty text, and of a text if it holds of what is behind its first piece, holds of
all texts. -/
theorem pieces_induction {P : List Char → Prop} (nil : P [])
    (piece : ∀ w found rest, Begins w found rest → P rest → P (w ++ rest)) (cs : List Char) : P cs := by
  induction hn : cs.length using Nat.strongRecOn generalizing cs with
  | _ n ih =>
    cases cs with
    | nil => exact nil
    | cons c cs =>
      obtain ⟨w, found, rest, heq, hw⟩ := exists_begins c cs
      have hlt : rest.length < n := by
        rw [← hn, heq, List.length_append]
        exact Nat.lt_add_of_pos_left (List.length_pos_iff.mpr hw.ne_nil)
      rw [heq]
      exact piece w found rest hw (ih _ hlt rest rfl)

theorem Piece.length_results (p : Position) (found : Piece) : (found.results p).length ≤ 1 := by
  cases found with
  | blank => exact Nat.zero_le 1
  | token | fault => exact Nat.le_refl 1

/-- Each result but the end has a character of its own. -/
theorem length_scanFrom (p : Position) (cs : List Char) : (scanFrom p cs).length ≤ cs.length + 1 := by
  induction cs using pieces_induction generalizing p with
  | nil => rw [scanFrom_nil]; exact Nat.le_refl 1
  | piece w found rest hw ih =>
    have hpos := List.length_pos_iff.mpr hw.ne_nil
    have hresults := found.length_results p
    have hrest := ih (p.after w)
    rw [hw.scan List.prefix_rfl, List.length_append, List.length_append]
    omega

theorem getLast?_scanFrom (p : Position) (cs : List Char) :
    (scanFrom p cs).getLast? = some (.ok ⟨.eof, p.after cs⟩) := by
  induction cs using pieces_induction generalizing p with
  | nil => rw [scanFrom_nil]; rfl
  | piece w found rest hw ih =>
    rw [hw.scan List.prefix_rfl, List.getLast?_append, ih, Position.after_append]
    rfl

/-- The last result, and no other one, is the end; it stands behind the text. -/
theorem scanFrom_end (p : Position) (cs : List Char) :
    ∃ results : List (Except LexError Token), scanFrom p cs = results ++ [.ok ⟨.eof, p.after cs⟩] ∧
      ∀ t, .ok t ∈ results → t.kind ≠ .eof := by
  obtain ⟨results, eof, hscan, -, hresults⟩ := scanFrom_eq_append p cs
  have hlast := getLast?_scanFrom p cs
  rw [hscan, List.getLast?_concat] at hlast
  rw [hscan, Option.some.inj hlast]
  exact ⟨results, rfl, hresults⟩

/-- What a piece gives stands at one of its characters. -/
theorem Piece.Within.place {p : Position} (h : found.Within w) (hw : w ≠ [])
    {r : Except LexError Token} (hr : r ∈ found.results p) :
    ∃ text d more, w = text ++ d :: more ∧ place r = p.after text := by
  cases found with
  | blank => cases hr
  | token kind =>
    cases List.mem_singleton.mp hr
    obtain ⟨d, more, rfl⟩ := List.exists_cons_of_ne_nil hw
    exact ⟨[], d, more, rfl, rfl⟩
  | fault cause before =>
    cases List.mem_singleton.mp hr
    obtain ⟨d, more, rfl⟩ := h
    exact ⟨before, d, more, rfl, rfl⟩

theorem place_mem_scanFrom {p : Position} {r : Except LexError Token} (h : r ∈ scanFrom p cs) :
    ∃ text, place r = p.after text := by
  induction cs using pieces_induction generalizing p with
  | nil =>
    rw [scanFrom_nil] at h
    cases List.mem_singleton.mp h
    exact ⟨[], rfl⟩
  | piece w found rest hw ih =>
    rw [hw.scan List.prefix_rfl] at h
    rcases List.mem_append.mp h with h | h
    · obtain ⟨text, d, more, -, hplace⟩ := hw.within.place hw.ne_nil h
      exact ⟨text, hplace⟩
    · obtain ⟨text, hplace⟩ := ih h
      exact ⟨w ++ text, by rw [hplace, Position.after_append]⟩

/-- Later results stand at later places. -/
theorem pairwise_scanFrom (p : Position) (cs : List Char) :
    (scanFrom p cs).Pairwise fun r r' => (place r).Before (place r') := by
  induction cs using pieces_induction generalizing p with
  | nil =>
    rw [scanFrom_nil]
    exact List.pairwise_singleton _ _
  | piece w found rest hw ih =>
    rw [hw.scan List.prefix_rfl, List.pairwise_append]
    refine ⟨?_, ih _, fun r hr r' hr' => ?_⟩
    · cases found with
      | blank => exact .nil
      | token | fault => exact List.pairwise_singleton _ _
    · obtain ⟨text, d, more, rfl, hplace⟩ := hw.within.place hw.ne_nil hr
      obtain ⟨text', hplace'⟩ := place_mem_scanFrom hr'
      rw [hplace, hplace', Position.after_append, ← Position.after_append _ (d :: more)]
      exact Position.before_after _ (List.cons_ne_nil d _)

/-- A token begins neither with white space nor with a comment. -/
theorem Begins.bare {kind : Kind} (h : Begins w (.token kind) rest) {filler more : List Char}
    (hfiller : Filler filler) (heq : w = filler ++ more) : filler = [] := by
  by_contra hne
  let p := Position.start ""
  have hmem : .ok ⟨kind, p⟩ ∈ scanFrom p (w ++ []) := by
    rw [h.scan List.nil_prefix]
    exact List.mem_cons_self
  rw [List.append_nil, heq, hfiller.scanFrom] at hmem
  obtain ⟨text, hplace⟩ := place_mem_scanFrom hmem
  have hlater := Position.before_after p (List.append_ne_nil_of_left_ne_nil hne text)
  rw [Position.after_append, ← hplace] at hlater
  exact Position.Before.irrefl p hlater

/-- The characters `w` are the token `tok`. Those of `text` before them give the results `before`, and
those of `rest` behind them the results `after`. -/
structure Stands (p : Position) (before : List (Except LexError Token)) (tok : Token)
    (after : List (Except LexError Token)) (text w rest : List Char) : Prop where
  begins : Begins w (.token tok.kind) rest
  pos_eq : tok.pos = p.after text
  scan_text : scanFrom p text = before ++ [.ok ⟨.eof, tok.pos⟩]
  scan_rest : scanFrom (tok.pos.after w) rest = after

section

variable {p : Position} {before after : List (Except LexError Token)} {tok : Token}

theorem Stands.behind {text w' rest' : List Char} (h : Stands (p.after w) before tok after text w' rest')
    (hw : Begins w found (text ++ (w' ++ rest'))) :
    Stands p (found.results p ++ before) tok after (w ++ text) w' rest' where
  begins := h.begins
  pos_eq := by rw [h.pos_eq, Position.after_append]
  scan_text := by rw [hw.scan (List.prefix_append _ _), h.scan_text, List.append_assoc]
  scan_rest := h.scan_rest

theorem exists_stands (h : scanFrom p cs = before ++ .ok tok :: after) (hkind : tok.kind ≠ .eof) :
    ∃ text w rest, cs = text ++ (w ++ rest) ∧ Stands p before tok after text w rest := by
  induction cs using pieces_induction generalizing p before with
  | nil =>
    rw [scanFrom_nil] at h
    obtain ⟨-, heq⟩ | ⟨-, hnil⟩ := List.append_eq_singleton_iff.mp h.symm
    · cases heq
      exact absurd rfl hkind
    · cases hnil
  | piece w found rest hw ih =>
    rw [hw.scan List.prefix_rfl] at h
    -- a token that the text behind the piece gives
    have hbehind : ∀ before', scanFrom (p.after w) rest = before' ++ .ok tok :: after →
        ∃ text w' rest', w ++ rest = text ++ (w' ++ rest') ∧
          Stands p (found.results p ++ before') tok after text w' rest' := by
      intro before' hrest
      obtain ⟨text, w', rest', rfl, hstands⟩ := ih hrest
      exact ⟨w ++ text, w', rest', (List.append_assoc _ _ _).symm, hstands.behind hw⟩
    cases found with
    | blank => exact hbehind before h
    | token kind =>
      cases before with
      | nil =>
        cases h
        exact ⟨[], w, rest, rfl, hw, rfl, scanFrom_nil p, rfl⟩
      | cons r before' =>
        obtain ⟨rfl, hrest⟩ := List.cons.inj h
        exact hbehind before' hrest
    | fault cause spoilt =>
      cases before with
      | nil => cases h
      | cons r before' =>
        obtain ⟨rfl, hrest⟩ := List.cons.inj h
        exact hbehind before' hrest

end

/-- A scan gives at most one result for each character, and then the end, which it gives only there and
behind the text. Places of later results are later. The place of a token is that of the first of its
characters: those before give the results before the token, those of the token give nothing else and have
no white space or comment in front, and those behind give the rest. -/
theorem scan_places (unit source : String) :
    (scan unit source).length ≤ source.length + 1 ∧
    (∃ results : List (Except LexError Token),
      scan unit source = results ++ [.ok ⟨.eof, .behind unit source.toList⟩] ∧
      ∀ t, .ok t ∈ results → t.kind ≠ .eof) ∧
    (scan unit source).Pairwise (fun r r' => (place r).Before (place r')) ∧
    ∀ (before : List (Except LexError Token)) (tok : Token) (after : List (Except LexError Token)),
      scan unit source = before ++ .ok tok :: after → tok.kind ≠ .eof →
      ∃ text lexeme rest : List Char, source.toList = text ++ (lexeme ++ rest) ∧
        tok.pos = .behind unit text ∧
        scan unit (String.ofList text) = before ++ [.ok ⟨.eof, tok.pos⟩] ∧
        (∀ unit', scan unit' (String.ofList lexeme) =
          [.ok ⟨tok.kind, .start unit'⟩, .ok ⟨.eof, .behind unit' lexeme⟩]) ∧
        (∀ filler more, Filler filler → lexeme = filler ++ more → filler = []) ∧
        scanFrom (.behind unit (text ++ lexeme)) rest = after := by
  refine ⟨?_, ?_, pairwise_scanFrom _ _, fun before tok after h hkind => ?_⟩
  · rw [← String.length_toList]
    exact length_scanFrom _ _
  · rw [← Position.after_start]
    exact scanFrom_end _ _
  · obtain ⟨text, lexeme, rest, hsource, hstands⟩ := exists_stands h hkind
    have hpos := hstands.pos_eq
    rw [Position.after_start] at hpos
    refine ⟨text, lexeme, rest, hsource, hpos, ?_, fun unit' => ?_, ?_, ?_⟩
    · rw [scan, String.toList_ofList, hstands.scan_text]
    · have hlexeme := hstands.begins.scan List.nil_prefix (.start unit')
      rw [List.append_nil, scanFrom_nil, Position.after_start] at hlexeme
      rw [scan, String.toList_ofList, hlexeme]
      rfl
    · exact fun filler more hfiller heq => hstands.begins.bare hfiller heq
    · rw [← Position.after_start, Position.after_append, ← hstands.pos_eq, hstands.scan_rest]

/-- A name behind a fault and a comment over two lines. -/
theorem scan_places_behind_comment :
    let source := "?(* é\né *) x"
    let before : List (Except LexError Token) := [.error ⟨.unexpectedCharacter '?', ⟨"test", 1, 1⟩⟩]
    let tok : Token := ⟨.identifier "x", ⟨"test", 2, 6⟩⟩
    let after : List (Except LexError Token) := [.ok ⟨.eof, ⟨"test", 2, 7⟩⟩]
    scan "test" source = before ++ .ok tok :: after ∧ tok.kind ≠ .eof ∧
      ∃ text lexeme rest : List Char, source.toList = text ++ (lexeme ++ rest) ∧
        tok.pos = .behind "test" text ∧
        scan "test" (String.ofList text) = before ++ [.ok ⟨.eof, tok.pos⟩] ∧
        (∀ unit', scan unit' (String.ofList lexeme) =
          [.ok ⟨tok.kind, .start unit'⟩, .ok ⟨.eof, .behind unit' lexeme⟩]) ∧
        (∀ filler more, Filler filler → lexeme = filler ++ more → filler = []) ∧
        scanFrom (.behind "test" (text ++ lexeme)) rest = after := by
  intro source before tok after
  have hsource : source.toList = ['?', '(', '*', ' ', 'é', '\n', 'é', ' ', '*', ')', ' ', 'x'] := by
    unfold source
    rfl
  have hfault : ∀ cs, cut '?' cs = ⟨['?'], .fault (.unexpectedCharacter '?') [], cs⟩ := fun _ => rfl
  have hname : cut 'x' [] = ⟨['x'], .token (.identifier "x"), []⟩ := rfl
  have hscan : scan "test" source = before ++ .ok tok :: after := by
    rw [scan, hsource, scanFrom_cut _ (hfault _), scanFrom_blank _ rfl,
      scanFrom_blank _ (cut_blank rfl _), scanFrom_token _ hname, scanFrom_nil]
    rfl
  have hkind : tok.kind ≠ .eof := by rintro ⟨⟩
  exact ⟨hscan, hkind, (scan_places "test" source).2.2.2 before tok after hscan hkind⟩

end Token

end Pascal
