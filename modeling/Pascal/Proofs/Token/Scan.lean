import Pascal.Token.Lexer
import Mathlib.Data.List.TakeWhile

/-!
# The end of a token sequence

Only the end of a text makes the token that marks an end. A text without faults is therefore scanned to a
row of tokens with that one behind them. No name has a slash in it, so that a name in a path leads to
no other directory.
-/

namespace Pascal.Token

/-- What a piece of a text can spell: it marks no end, and a name has no slash in it. -/
def Kind.Spelled : Kind → Prop
  | .eof => False
  | .identifier name => '/' ∉ name.toList
  | _ => True

def Piece.Spelled : Piece → Prop
  | .token kind => kind.Spelled
  | _ => True

theorem Kind.ofNat?_spelled {n : Nat} {kind : Kind} (h : Kind.ofNat? n = some kind) :
    kind.Spelled := by
  unfold Kind.ofNat? at h
  split at h
  · cases h
    exact trivial
  · split at h
    · cases h
      exact trivial
    · cases h

theorem orFault_spelled {literal : List Char} {kind : Option Kind}
    (h : ∀ k, kind = some k → k.Spelled) : (orFault literal kind).Spelled := by
  cases kind with
  | none => exact trivial
  | some k => exact h k rfl

theorem number_spelled (cs : List Char) : (number cs).found.Spelled := by
  have hkind : ∀ (whole : Bool) (n : Nat) (x : Option Float) (k : Kind),
      (if whole then Kind.ofNat? n else x.map Kind.real) = some k → k.Spelled := by
    intro whole n x k h
    split at h
    · exact Kind.ofNat?_spelled h
    · obtain ⟨value, -, rfl⟩ := Option.map_eq_some_iff.mp h
      exact trivial
  exact orFault_spelled (hkind _ _ _)

theorem hexNumber_spelled (cs : List Char) : (hexNumber cs).found.Spelled := by
  apply orFault_spelled
  intro k h
  split at h
  · cases h
  · exact Kind.ofNat?_spelled h

theorem stringLiteral_spelled (cs : List Char) : (stringLiteral cs).found.Spelled := by
  unfold stringLiteral
  dsimp only
  split <;> exact trivial

theorem wordKind_spelled {word : String} (h : '/' ∉ word.toList) : (wordKind word).Spelled := by
  unfold wordKind
  split
  · exact trivial
  · exact h

theorem symbol_spelled (c : Char) (cs : List Char) : (symbol c cs).found.Spelled := by
  fun_cases symbol c cs <;> exact trivial

theorem braceComment_spelled (cs : List Char) : (braceComment cs).found.Spelled := by
  unfold braceComment
  dsimp only
  split
  · exact trivial
  · dsimp only
    split <;> exact trivial

theorem parenComment_spelled (cs : List Char) : (parenComment cs).found.Spelled := by
  unfold parenComment
  split <;> exact trivial

/-- A slash neither begins a word nor goes on with one. -/
theorem slash_notMem_word {c : Char} (cs : List Char) (h : Text.isLetter c ∨ c = '_') :
    '/' ∉ c :: cs.takeWhile isWordChar := by
  intro hmem
  rcases List.mem_cons.mp hmem with rfl | hmem
  · revert h
    decide
  · have hword : isWordChar '/' := List.mem_takeWhile_imp hmem
    revert hword
    decide

/-- Every piece of a text is spelled. -/
theorem cut_spelled (c : Char) (cs : List Char) : (cut c cs).found.Spelled := by
  fun_cases cut c cs
  case case1 => exact trivial
  case case2 => exact braceComment_spelled cs
  case case3 => exact parenComment_spelled _
  case case4 => exact trivial
  case case5 => exact stringLiteral_spelled _
  case case6 => exact hexNumber_spelled cs
  case case7 => exact number_spelled _
  case case8 h _ =>
    apply wordKind_spelled
    rw [String.toList_ofList]
    exact slash_notMem_word cs h
  case case9 => exact symbol_spelled c cs

/-- The tokens of a text, with or without faults: its end and what its pieces spell. -/
theorem scanFrom_spelled {p : Position} {cs : List Char} {t : Token} (h : .ok t ∈ scanFrom p cs) :
    t.kind = .eof ∨ t.kind.Spelled := by
  fun_induction scanFrom p cs with
  | case1 p =>
    cases List.mem_singleton.mp h
    exact .inl rfl
  | case2 p c cs hfound ih => exact ih h
  | case3 p c cs kind hfound ih =>
    rcases List.mem_cons.mp h with h | h
    · cases h
      have hcut := cut_spelled c cs
      rw [hfound] at hcut
      exact .inr hcut
    · exact ih h
  | case4 p c cs cause before hfound ih =>
    rcases List.mem_cons.mp h with h | h
    · cases h
    · exact ih h

/-- With or without faults a text ends with the token that marks its end, and with no other one. -/
theorem scanFrom_eq_append (p : Position) (cs : List Char) :
    ∃ init eof, scanFrom p cs = init ++ [.ok eof] ∧ eof.kind = .eof ∧
      ∀ t, .ok t ∈ init → t.kind ≠ .eof := by
  fun_induction scanFrom p cs with
  | case1 p => exact ⟨[], _, rfl, rfl, by simp⟩
  | case2 p c cs hfound ih => exact ih
  | case3 p c cs kind hfound ih =>
    obtain ⟨init, eof, hscan, heof, hinit⟩ := ih
    refine ⟨.ok ⟨kind, p⟩ :: init, eof, by rw [hscan]; rfl, heof, fun t ht => ?_⟩
    rcases List.mem_cons.mp ht with ht | ht
    · cases ht
      rintro rfl
      have hcut := cut_spelled c cs
      rw [hfound] at hcut
      exact hcut
    · exact hinit t ht
  | case4 p c cs cause before hfound ih =>
    obtain ⟨init, eof, hscan, heof, hinit⟩ := ih
    refine ⟨.error _ :: init, eof, by rw [hscan]; rfl, heof, fun t ht => ?_⟩
    rcases List.mem_cons.mp ht with ht | ht
    · cases ht
    · exact hinit t ht

theorem mapM_id_eq_ok {rs : List (Except LexError Token)} {ts : List Token}
    (h : rs.mapM id = .ok ts) : rs = ts.map .ok := by
  induction rs generalizing ts with
  | nil => cases h; rfl
  | cons r rs ih =>
    rw [List.mapM_cons] at h
    cases r with
    | error e => cases h
    | ok t =>
      cases hrs : rs.mapM id with
      | error e => rw [hrs] at h; cases h
      | ok us =>
        rw [hrs] at h
        cases h
        rw [ih hrs, List.map_cons]

theorem mapM_id_map_ok (ts : List Token) :
    (ts.map (Except.ok (ε := LexError))).mapM id = .ok ts := by
  induction ts with
  | nil => rfl
  | cons t ts ih =>
    rw [List.map_cons, List.mapM_cons, ih]
    rfl

/-- A text without faults is a row of tokens, none of which marks an end, and the token that does. -/
theorem scanFrom_eq_ok {p : Position} {cs : List Char} {ts : List Token}
    (h : scanFrom p cs = ts.map .ok) :
    ∃ body eof, ts = body ++ [eof] ∧ eof.kind = .eof ∧ ∀ t ∈ body, t.kind ≠ .eof := by
  fun_induction scanFrom p cs generalizing ts with
  | case1 p =>
    obtain ⟨t, us, rfl, ht, hus⟩ := List.map_eq_cons_iff.mp h.symm
    cases ht
    rw [List.map_eq_nil_iff.mp hus]
    exact ⟨[], _, rfl, rfl, by simp⟩
  | case2 p c cs hfound ih => exact ih h
  | case3 p c cs kind hfound ih =>
    obtain ⟨t, us, rfl, ht, hus⟩ := List.map_eq_cons_iff.mp h.symm
    cases ht
    obtain ⟨body, eof, rfl, heof, hbody⟩ := ih hus.symm
    refine ⟨⟨kind, p⟩ :: body, eof, rfl, heof, List.forall_mem_cons.mpr ⟨?_, hbody⟩⟩
    rintro rfl
    have hcut := cut_spelled c cs
    rw [hfound] at hcut
    exact hcut
  | case4 p c cs cause before hfound ih =>
    obtain ⟨t, us, rfl, ht, -⟩ := List.map_eq_cons_iff.mp h.symm
    cases ht

/-- The tokens of a text without faults. -/
theorem scanAll_eq_ok {unit source : String} {ts : List Token} (h : scanAll unit source = .ok ts) :
    scan unit source = ts.map .ok ∧
      ∃ body eof, ts = body ++ [eof] ∧ eof.kind = .eof ∧ ∀ t ∈ body, t.kind ≠ .eof :=
  ⟨mapM_id_eq_ok h, scanFrom_eq_ok (mapM_id_eq_ok h)⟩

end Pascal.Token
