import Pascal.Proofs.Group.Errors

/-!
# Source texts in which nothing is wrong

If the root has recorded no error, then the text and all that it includes are scanned without a fault, and
the groups are the nesting of all these tokens. There is no error at any level then.
-/

namespace Pascal

/-- The tokens that come of some tokens once each directive is replaced by what it includes. -/
inductive Sources.Expands (sources : Sources) : List Token → List Token → Prop where
  | nil : Expands sources [] []
  | token {t : Token} {ts us : List Token} (ht : ∀ name, t.kind ≠ .includes name)
      (hrest : Expands sources ts us) : Expands sources (t :: ts) (t :: us)
  | directive {t eof : Token} {ts body inner us : List Token} {name text : String}
      (ht : t.kind = .includes name) (hload : sources.load name = some (.ok text))
      (hlex : Token.scanAll name text = .ok (body ++ [eof])) (hinner : Expands sources body inner)
      (hrest : Expands sources ts us) : Expands sources (t :: ts) (inner ++ us)

/-- Nothing is wrong with a source text: it and all that it includes are scanned without a fault, its groups
are the nesting of these tokens, and there is no error in them at any level. -/
structure Sources.Flawless (sources : Sources) (unit source : String) : Prop where
  lexed : ∃ body ts, Token.scanAll unit source =
      .ok (body ++ [(Group.assemble sources unit source).closed]) ∧ sources.Expands body ts ∧
    WellNested ts ∧ Item.tokensOf (Group.assemble sources unit source).items = ts
  grouped : ∀ e, ¬Item.Within (.error e) (Group.assemble sources unit source).items

/-- Among proper items there is no error at any level. -/
theorem Item.Within.ne_error {e : GroupError} {items : List Item} (hitems : ∀ i ∈ items, Item.Proper i) :
    ¬Item.Within (.error e) items := by
  intro h
  generalize hi : Item.error e = i at h
  induction h with
  | here h =>
    subst hi
    cases hitems _ h
  | inside h _ ih =>
    cases hitems _ h with
    | group _ _ hinner => exact ih hinner

namespace Nesting

variable {n : Nesting} {ts : List Token} {sources : Sources}

theorem steady_marked : Steady Marked where
  opens h := h
  adds h := h.mono (root_add _ _)
  injects _ := marked_inject _ _
  closes h := h.mono (root_closeTop _ _)
  ends h := h

/-- Either nothing is wrong with what a directive includes, or it leaves an error. -/
def Expanding (sources : Sources) (including : String → Position → Nesting → Nesting × Flow) : Prop :=
  ∀ {n ts} name pos, Clean n ts →
    (∃ text body eof us n', sources.load name = some (.ok text) ∧
      Token.scanAll name text = .ok (body ++ [eof]) ∧ sources.Expands body us ∧ n'.Clean (ts ++ us) ∧
      including name pos n = (n', .go)) ∨
    (including name pos n).1.Marked

section

variable {including : String → Position → Nesting → Nesting × Flow}
  {atEnd : Token → Nesting → Nesting × Flow} {t : Token} {rest : List (Except LexError Token)}

theorem feedAll_eof (ht : t.kind = .eof) : feedAll including atEnd (.ok t :: rest) n = atEnd t n := by
  rw [feedAll, ht]

theorem feedAll_directive {name : String} {n' : Nesting} (ht : t.kind = .includes name)
    (h : including name t.pos n = (n', .go)) :
    feedAll including atEnd (.ok t :: rest) n = feedAll including atEnd rest n' := by
  rw [feedAll, ht]
  simp only [h]

variable (hkept : ∀ rs (n : Nesting), n.Marked → (Nesting.feedAll including atEnd rs n).1.Marked)

include hkept

theorem marked_directive {name : String} (ht : t.kind = .includes name)
    (h : (including name t.pos n).1.Marked) :
    (Nesting.feedAll including atEnd (.ok t :: rest) n).1.Marked := by
  rw [Nesting.feedAll, ht]
  dsimp only
  split
  · next hgo =>
    rw [hgo] at h
    exact hkept rest _ h
  · next hstop =>
    rw [hstop] at h
    exact h

theorem marked_inner (ht : isInner t) (h : (n.feed t).1.Marked) :
    (Nesting.feedAll including atEnd (.ok t :: rest) n).1.Marked := by
  rw [feedAll_inner ht]
  split
  · next hgo =>
    rw [hgo] at h
    exact hkept rest _ h
  · next hstop =>
    rw [hstop] at h
    exact h

variable (hexpanding : Expanding sources including)

include hexpanding

/-- Either nothing is wrong with the tokens of a text and with what they include, or they leave an
error. -/
theorem Clean.feedAll_expands (h : n.Clean ts) {init : List (Except LexError Token)}
    (hinit : ∀ t, .ok t ∈ init → t.kind ≠ .eof) (rest : List (Except LexError Token)) :
    (∃ body us n', init = body.map .ok ∧ sources.Expands body us ∧ n'.Clean (ts ++ us) ∧
      Nesting.feedAll including atEnd (init ++ rest) n = Nesting.feedAll including atEnd rest n') ∨
    (Nesting.feedAll including atEnd (init ++ rest) n).1.Marked := by
  induction init generalizing n ts with
  | nil => exact .inl ⟨[], [], n, rfl, .nil, by simpa using h, rfl⟩
  | cons r init ih =>
    cases r with
    | error e =>
      rw [List.cons_append, Nesting.feedAll]
      exact .inr (marked_inject n _)
    | ok t =>
      obtain ⟨ht, hinit⟩ : t.kind ≠ .eof ∧ ∀ t, .ok t ∈ init → t.kind ≠ .eof :=
        ⟨hinit t List.mem_cons_self, fun t ht => hinit t (List.mem_cons_of_mem _ ht)⟩
      rw [List.cons_append]
      rcases isInner_cases t with heof | ⟨name, hname⟩ | hinner
      · exact absurd heof ht
      · rcases hexpanding name t.pos h with ⟨text, inner, eof, us, n', hload, hlex, hinner, hclean, hgo⟩ |
          hmarked
        · rw [feedAll_directive hname hgo]
          rcases ih hclean hinit with ⟨body, vs, n'', rfl, hexpands, hclean, hall⟩ | hmarked
          · refine .inl ⟨t :: body, us ++ vs, n'', rfl, ?_, by simpa using hclean, hall⟩
            exact .directive hname hload hlex hinner hexpands
          · exact .inr hmarked
        · exact .inr (marked_directive hkept hname hmarked)
      · have hplain : ∀ name, t.kind ≠ .includes name := by
          intro name hname
          simp [isInner, hname] at hinner
        cases hstep : nestStep n.kinds t with
        | none => exact .inr (marked_inner hkept hinner (marked_feed hstep))
        | some kinds =>
          obtain ⟨n', hgo, hclean, -⟩ := h.feed hstep
          rw [feedAll_inner hinner, hgo]
          rcases ih hclean hinit with ⟨body, us, n'', rfl, hexpands, hclean, hall⟩ | hmarked
          · refine .inl ⟨t :: body, t :: us, n'', rfl, ?_, by simpa using hclean, hall⟩
            exact .token hplain hexpands
          · exact .inr hmarked

/-- The same up to the end of the text. -/
theorem Clean.feedAll_scan (h : n.Clean ts) (unit source : String) :
    (∃ body eof us n', Token.scanAll unit source = .ok (body ++ [eof]) ∧ sources.Expands body us ∧
      n'.Clean (ts ++ us) ∧ Nesting.feedAll including atEnd (Token.scan unit source) n = atEnd eof n') ∨
    (Nesting.feedAll including atEnd (Token.scan unit source) n).1.Marked := by
  obtain ⟨init, eof, hscan, heof, hinit⟩ := Token.scanFrom_eq_append (.start unit) source.toList
  have hscan : Token.scan unit source = init ++ [.ok eof] := hscan
  rw [hscan]
  rcases h.feedAll_expands hkept hexpanding hinit [.ok eof] with
    ⟨body, us, n', rfl, hexpands, hclean, hall⟩ | hmarked
  · refine .inl ⟨body, eof, us, n', ?_, hexpands, hclean, hall.trans (feedAll_eof heof)⟩
    have htokens : Token.scan unit source = (body ++ [eof]).map .ok := by
      rw [hscan, List.map_append, List.map_singleton]
    rw [Token.scanAll, htokens, Token.mapM_id_map_ok]
  · exact .inr hmarked

end

theorem expanding_includeFrom (sources : Sources) (levels : Nat) :
    Expanding sources (includeFrom sources levels) := by
  induction levels with
  | zero => exact fun name pos _ => .inr (marked_inject _ _)
  | succ levels ih =>
    intro n ts name pos h
    unfold includeFrom
    split
    · exact .inr (marked_inject n _)
    · exact .inr (marked_inject n _)
    · next text hload =>
      have hkept : ∀ rs (n : Nesting), n.Marked →
          (feedAll (includeFrom sources levels) (fun _ n => (n, .go)) rs n).1.Marked :=
        fun rs _ hn => steady_marked.feedAll (steady_marked.includeFrom sources levels)
          (fun _ _ => id) hn rs
      rcases h.feedAll_scan hkept ih name text with
        ⟨body, eof, us, n', hlex, hexpands, hclean, hall⟩ | hmarked
      · exact .inl ⟨text, body, eof, us, n', hload, hlex, hexpands, hclean, hall⟩
      · exact .inr hmarked

end Nesting

namespace Group

/-- If no error is recorded in the root, then nothing is wrong with the text. -/
theorem flawless_of_errors {sources : Sources} {unit source : String}
    (h : (assemble sources unit source).errors = []) : sources.Flawless unit source := by
  have hbegin : Nesting.Clean { root := ⟨.root, ⟨.eof, .start unit⟩, []⟩ } [] :=
    ⟨by simp, by simp, rfl⟩
  have hkept : ∀ rs (n : Nesting), n.Marked →
      (Nesting.feedAll (Nesting.includeFrom sources maxIncludeDepth)
        (fun eof n => (n.finish eof, .stop)) rs n).1.Marked :=
    fun rs _ hn => Nesting.steady_marked.feedAll (Nesting.steady_marked.includeFrom sources _)
      (fun eof _ hn => Nesting.steady_marked.finish hn eof) hn rs
  rcases hbegin.feedAll_scan hkept (Nesting.expanding_includeFrom sources maxIncludeDepth) unit source with
    ⟨body, eof, us, n, hlex, hexpands, hclean, hall⟩ | hmarked
  · by_cases hopen : n.kinds = []
    · have hassemble : assemble sources unit source =
          ⟨.root, ⟨.eof, .start unit⟩, eof, n.root.items.reverse⟩ := by
        have hnil : n.inner = [] := List.map_eq_nil_iff.mp hopen
        unfold assemble
        dsimp only
        rw [hall, Nesting.finish_of_closed eof hopen, Nesting.unwind]
        simp [hnil, Nesting.closeSkipped]
      have hproper : ∀ i ∈ n.root.items.reverse, i.Proper :=
        fun i hi => hclean.root i (List.mem_reverse.mp hi)
      have htokens : Item.tokensOf n.root.items.reverse = us := by
        have htokens := hclean.tokens
        rw [List.map_eq_nil_iff.mp hopen] at htokens
        simpa using htokens
      constructor
      · rw [hassemble]
        refine ⟨body, us, hlex, hexpands, ?_, htokens⟩
        rw [← htokens]
        exact Item.wellNested_tokensOf fun i hi => (hproper i hi).wellNested
      · rw [hassemble]
        exact fun e => Item.Within.ne_error hproper
    · have hmarked := Nesting.marked_finish eof hopen
      rw [← show _ = n.finish eof from congrArg Prod.fst hall] at hmarked
      exact absurd h (errors_ne_nil hmarked _ _)
  · exact absurd h (errors_ne_nil hmarked _ _)

end Group

end Pascal
