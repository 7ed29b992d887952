import Pascal.Proofs.Group.Expanded

/-!
# Includes end

How deep texts include one another is not bounded by the texts themselves: a file may include itself, or
two files each other. `Sources.Feeds` says how a text is fed without any such bound in its recursion, and
writes down which files are read and how far below the first text. There is a finite way to feed every
text, it is what the groups come from, and no file is read more than `maxIncludeDepth` levels down.

Where the first directives of the texts lead deeper than that, the one that is too deep stops everything.
-/

namespace Pascal

namespace Nesting

section

variable {including : String → Position → Nesting → Nesting × Flow}
  {atEnd : Token → Nesting → Nesting × Flow} {n n' : Nesting} {t : Token}
  {rest : List (Except LexError Token)}

theorem feedAll_directive_stop {name : String} (ht : t.kind = .includes name)
    (h : including name t.pos n = (n', .stop)) :
    feedAll including atEnd (.ok t :: rest) n = (n', .stop) := by
  rw [feedAll, ht]
  simp only [h]

end

/-- What is fed in one go: the tokens of a text, or a directive. -/
inductive Piece where
  | tokens (rs : List (Except LexError Token))
  | directive (name : String) (pos : Position)

/-- The end of a text. Only the first text ends the input. -/
def endOfText : Nat → Token → Nesting → Nesting × Flow
  | 0, eof, n => (n.finish eof, .stop)
  | _ + 1, _, n => (n, .go)

/-- What becomes of a piece `depth` levels down if `levels` more may be nested in each other. -/
def Piece.fed (sources : Sources) (levels depth : Nat) : Piece → Nesting → Nesting × Flow
  | tokens rs, n => feedAll (includeFrom sources levels) (endOfText depth) rs n
  | directive name pos, n => includeFrom sources levels name pos n

end Nesting

open Nesting

/-- A way to feed a piece `depth` levels below the first text, with its result and the files that are read
meanwhile, each with the level it is read at. -/
inductive Sources.Feeds (sources : Sources) :
    Nat → Piece → Nesting → Nesting × Flow → List (Nat × String) → Prop where
  | empty {depth : Nat} {n : Nesting} : Feeds sources depth (.tokens []) n (n, .go) []
  | fault {depth : Nat} {n : Nesting} {e : LexError} {rest : List (Except LexError Token)} :
      Feeds sources depth (.tokens (.error e :: rest)) n (n.inject (.lex e), .stop) []
  | ended {depth : Nat} {n : Nesting} {t : Token} {rest : List (Except LexError Token)}
      (ht : t.kind = .eof) :
      Feeds sources depth (.tokens (.ok t :: rest)) n (endOfText depth t n) []
  | taken {depth : Nat} {n n' : Nesting} {t : Token} {rest : List (Except LexError Token)}
      {result : Nesting × Flow} {reads : List (Nat × String)} (ht : isInner t)
      (hfeed : n.feed t = (n', .go)) (hrest : Feeds sources depth (.tokens rest) n' result reads) :
      Feeds sources depth (.tokens (.ok t :: rest)) n result reads
  | refused {depth : Nat} {n n' : Nesting} {t : Token} {rest : List (Except LexError Token)}
      (ht : isInner t) (hfeed : n.feed t = (n', .stop)) :
      Feeds sources depth (.tokens (.ok t :: rest)) n (n', .stop) []
  | included {depth : Nat} {n n' : Nesting} {t : Token} {rest : List (Except LexError Token)}
      {name : String} {result : Nesting × Flow} {reads later : List (Nat × String)}
      (ht : t.kind = .includes name)
      (hinner : Feeds sources depth (.directive name t.pos) n (n', .go) reads)
      (hrest : Feeds sources depth (.tokens rest) n' result later) :
      Feeds sources depth (.tokens (.ok t :: rest)) n result (reads ++ later)
  | stopped {depth : Nat} {n n' : Nesting} {t : Token} {rest : List (Except LexError Token)}
      {name : String} {reads : List (Nat × String)} (ht : t.kind = .includes name)
      (hinner : Feeds sources depth (.directive name t.pos) n (n', .stop) reads) :
      Feeds sources depth (.tokens (.ok t :: rest)) n (n', .stop) reads
  | tooDeep {depth : Nat} {n : Nesting} {name : String} {pos : Position}
      (hdepth : maxIncludeDepth < depth + 1) :
      Feeds sources depth (.directive name pos) n (n.inject (.includeTooDeep pos), .stop) []
  | missing {depth : Nat} {n : Nesting} {name : String} {pos : Position}
      (hdepth : depth + 1 ≤ maxIncludeDepth) (hload : sources.load name = none) :
      Feeds sources depth (.directive name pos) n (n.inject (.includeNotFound name pos), .stop) []
  | unreadable {depth : Nat} {n : Nesting} {name : String} {pos : Position} {e : DiskError}
      (hdepth : depth + 1 ≤ maxIncludeDepth) (hload : sources.load name = some (.error e)) :
      Feeds sources depth (.directive name pos) n (n.inject (.includeUnreadable name e.message pos), .stop)
        [(depth + 1, name)]
  | opened {depth : Nat} {n : Nesting} {name text : String} {pos : Position} {result : Nesting × Flow}
      {reads : List (Nat × String)} (hdepth : depth + 1 ≤ maxIncludeDepth)
      (hload : sources.load name = some (.ok text))
      (htext : Feeds sources (depth + 1) (.tokens (Token.scan name text)) n result reads) :
      Feeds sources depth (.directive name pos) n result ((depth + 1, name) :: reads)

/-- A text begins with some tokens of its own and then names a file to include. -/
structure Token.FirstIncludes (unit text : String) (before : List Token) (name : String) (pos : Position) :
    Prop where
  own : ∀ t ∈ before, isInner t
  scanned : ∃ t rest, Token.scan unit text = before.map .ok ++ .ok t :: rest ∧ t.kind = .includes name ∧
    t.pos = pos

/-- The first directive of a text, the first one of the text that it includes, and so on lead through some
number of files to one more directive. The tokens are those that stand before a directive on this way. -/
inductive Sources.Descends (sources : Sources) : Nat → String → String → List Token → Position → Prop where
  | here {unit text name : String} {before : List Token} {pos : Position}
      (h : Token.FirstIncludes unit text before name pos) : Descends sources 0 unit text before pos
  | deeper {count : Nat} {unit text name included : String} {before after : List Token}
      {directive pos : Position} (h : Token.FirstIncludes unit text before name directive)
      (hload : sources.load name = some (.ok included))
      (hnext : Descends sources count name included after pos) :
      Descends sources (count + 1) unit text (before ++ after) pos

namespace Sources

variable {sources : Sources}

section

variable {levels depth : Nat} {n : Nesting} {piece : Piece} {result : Nesting × Flow}
  {reads : List (Nat × String)}

namespace Feeds

/-- Each way to feed a piece ends in what becomes of it. -/
theorem eq_fed (h : sources.Feeds depth piece n result reads) (hlevels : depth + levels = maxIncludeDepth) :
    result = piece.fed sources levels depth n := by
  induction h generalizing levels with
  | empty => rfl
  | fault => rfl
  | ended ht => exact (feedAll_eof ht).symm
  | taken ht hfeed _ ih =>
    rw [ih hlevels, Piece.fed, Piece.fed, feedAll_inner ht, hfeed]
  | refused ht hfeed => rw [Piece.fed, feedAll_inner ht, hfeed]
  | included ht _ _ ihinner ihrest =>
    have hgo := (ihinner hlevels).symm
    rw [ihrest hlevels, Piece.fed, Piece.fed, feedAll_directive ht hgo]
  | stopped ht _ ih =>
    have hstop := (ih hlevels).symm
    rw [Piece.fed, feedAll_directive_stop ht hstop]
  | tooDeep hdepth =>
    obtain rfl : levels = 0 := by omega
    rfl
  | missing hdepth hload =>
    obtain ⟨levels, rfl⟩ : ∃ k, levels = k + 1 := ⟨levels - 1, by omega⟩
    rw [Piece.fed, includeFrom, hload]
  | unreadable hdepth hload =>
    obtain ⟨levels, rfl⟩ : ∃ k, levels = k + 1 := ⟨levels - 1, by omega⟩
    rw [Piece.fed, includeFrom, hload]
  | opened hdepth hload _ ih =>
    obtain ⟨levels, rfl⟩ : ∃ k, levels = k + 1 := ⟨levels - 1, by omega⟩
    rw [ih (show _ + levels = _ by omega), Piece.fed, Piece.fed, includeFrom, hload]
    rfl

theorem depth_le (h : sources.Feeds depth piece n result reads) :
    ∀ read ∈ reads, read.1 ≤ maxIncludeDepth := by
  induction h with
  | taken _ _ _ ih | stopped _ _ ih => exact ih
  | included _ _ _ ihinner ihrest =>
    intro read hread
    exact (List.mem_append.mp hread).elim (ihinner read) (ihrest read)
  | unreadable hdepth => simpa using hdepth
  | opened hdepth _ _ ih => exact List.forall_mem_cons.mpr ⟨hdepth, ih⟩
  | _ => simp

end Feeds

/-- There is a way to feed the tokens of a text if there is one to feed each directive in it. -/
theorem exists_feeds_tokens
    (hdirective : ∀ name pos n, ∃ reads, sources.Feeds depth (.directive name pos) n
      ((Piece.directive name pos).fed sources levels depth n) reads)
    (rs : List (Except LexError Token)) (n : Nesting) :
    ∃ reads, sources.Feeds depth (.tokens rs) n ((Piece.tokens rs).fed sources levels depth n) reads := by
  induction rs generalizing n with
  | nil => exact ⟨[], .empty⟩
  | cons r rest ih =>
    cases r with
    | error e => exact ⟨[], .fault⟩
    | ok t =>
      rw [Piece.fed]
      rcases isInner_cases t with ht | ⟨name, ht⟩ | ht
      · rw [feedAll_eof ht]
        exact ⟨[], .ended ht⟩
      · obtain ⟨reads, hinner⟩ := hdirective name t.pos n
        cases hfed : includeFrom sources levels name t.pos n with
        | mk n' flow =>
          rw [Piece.fed, hfed] at hinner
          cases flow with
          | go =>
            obtain ⟨later, hrest⟩ := ih n'
            rw [feedAll_directive ht hfed]
            exact ⟨reads ++ later, .included ht hinner hrest⟩
          | stop =>
            rw [feedAll_directive_stop ht hfed]
            exact ⟨reads, .stopped ht hinner⟩
      · rw [feedAll_inner ht]
        cases hfeed : n.feed t with
        | mk n' flow =>
          cases flow with
          | go =>
            obtain ⟨reads, hrest⟩ := ih n'
            exact ⟨reads, .taken ht hfeed hrest⟩
          | stop => exact ⟨[], .refused ht hfeed⟩

/-- There is a way to feed each directive. The levels that are left are the measure; within one level it
is the tokens of the text. -/
theorem exists_feeds_directive (hlevels : depth + levels = maxIncludeDepth) (name : String)
    (pos : Position) (n : Nesting) :
    ∃ reads, sources.Feeds depth (.directive name pos) n
      ((Piece.directive name pos).fed sources levels depth n) reads := by
  induction levels generalizing depth name pos n with
  | zero => exact ⟨[], .tooDeep (by omega)⟩
  | succ levels ih =>
    have hdepth : depth + 1 ≤ maxIncludeDepth := by omega
    rw [Piece.fed, includeFrom]
    cases hload : sources.load name with
    | none => exact ⟨[], .missing hdepth hload⟩
    | some content =>
      cases content with
      | error e => exact ⟨_, .unreadable hdepth hload⟩
      | ok text =>
        have hnext : depth + 1 + levels = maxIncludeDepth := by omega
        obtain ⟨reads, htext⟩ := exists_feeds_tokens (ih hnext) (Token.scan name text) n
        exact ⟨_, .opened hdepth hload htext⟩

end

end Sources

/-- Groups further out do not hinder a token. -/
theorem recoverStep_append {open_ after : List GroupKind} {t : Token}
    (h : recoverStep open_ t = some after) (outer : List GroupKind) :
    recoverStep (open_ ++ outer) t = some (after ++ outer) := by
  unfold recoverStep at h ⊢
  cases hopens : GroupKind.openedBy? t.kind with
  | some kind =>
    rw [hopens] at h
    cases h
    rfl
  | none =>
    rw [hopens] at h
    dsimp only at h ⊢
    split at h
    · next hcloser =>
      cases h
      rw [if_pos hcloser]
    · next hcloser =>
      rw [if_neg hcloser]
      rw [List.dropWhile_append]
      split at h
      · cases h
      · next kind rest hdrop =>
        cases h
        simp [hdrop]

theorem foldlM_recoverStep_append {ts : List Token} {open_ after : List GroupKind}
    (h : ts.foldlM recoverStep open_ = some after) (outer : List GroupKind) :
    ts.foldlM recoverStep (open_ ++ outer) = some (after ++ outer) := by
  induction ts generalizing open_ with
  | nil =>
    cases h
    rfl
  | cons t ts ih =>
    obtain ⟨next, hstep, hrest⟩ := Option.bind_eq_some_iff.mp h
    rw [List.foldlM_cons, recoverStep_append hstep outer]
    exact ih hrest

namespace Nesting

variable {n : Nesting}

@[simp] theorem ended_add (i : Item) : (n.add i).ended = n.ended := by
  unfold add
  split <;> rfl

@[simp] theorem ended_closeTop (closed : Token) : (n.closeTop closed).ended = n.ended := by
  unfold closeTop
  split
  · rfl
  · exact ended_add _

@[simp] theorem ended_closeSkipped (k : Nat) : (n.closeSkipped k).ended = n.ended := by
  induction k generalizing n with
  | zero => rfl
  | succ k ih => rw [closeSkipped, ih, ended_closeTop]

/-- Tokens of a text do not end the input. -/
@[simp] theorem ended_feed (t : Token) : (n.feed t).1.ended = n.ended := by
  rcases n.feed_cases t with ⟨kind, -, hfeed⟩ | ⟨-, hfeed⟩ | ⟨-, -, -, hfeed⟩ | ⟨g, outer, -, -, hfeed⟩ |
    ⟨skipped, g, outer, -, -, -, hfeed⟩ <;> rw [hfeed]
  · exact ended_add _
  · rfl
  · exact ended_closeTop t
  · rw [ended_closeTop, ended_closeSkipped]
    rfl

/-- What tokens lead to: all of them are kept, and the input goes on. -/
structure Takes (n : Nesting) (ts : List Token) (n' : Nesting) : Prop where
  formed : n'.Formed
  kept : n'.kept = n.kept ++ ts
  ended : n'.ended = n.ended

theorem Takes.trans {n' n'' : Nesting} {ts us : List Token} (h : n.Takes ts n') (h' : n'.Takes us n'') :
    n.Takes (ts ++ us) n'' :=
  ⟨h'.formed, by rw [h'.kept, h.kept, List.append_assoc], h'.ended.trans h.ended⟩

section

variable {including : String → Position → Nesting → Nesting × Flow}
  {atEnd : Token → Nesting → Nesting × Flow}

/-- Tokens among which there is no stray closer are taken one by one. -/
theorem feedAll_accepted (h : n.Formed) {ts : List Token} (hown : ∀ t ∈ ts, isInner t)
    {after : List GroupKind} (haccepted : ts.foldlM recoverStep n.kinds = some after)
    (rest : List (Except LexError Token)) :
    ∃ n', n.Takes ts n' ∧ n'.kinds = after ∧
      feedAll including atEnd (ts.map .ok ++ rest) n = feedAll including atEnd rest n' := by
  induction ts generalizing n with
  | nil =>
    cases haccepted
    exact ⟨n, ⟨h, (List.append_nil _).symm, rfl⟩, rfl, rfl⟩
  | cons t ts ih =>
    obtain ⟨ht, hown⟩ := List.forall_mem_cons.mp hown
    obtain ⟨next, hstep, haccepted⟩ := Option.bind_eq_some_iff.mp haccepted
    rcases h.feed t with ⟨n₁, hfeed, hformed, hkept, hkinds⟩ | ⟨n₁, -, -, -, hstray⟩
    · cases hkinds.symm.trans hstep
      have hone : n.Takes [t] n₁ := ⟨hformed, hkept, by rw [← n.ended_feed t, hfeed]⟩
      obtain ⟨n', htakes, hafter, hall⟩ := ih hformed hown haccepted
      refine ⟨n', hone.trans htakes, hafter, ?_⟩
      rw [List.map_cons, List.cons_append, feedAll_inner ht, hfeed]
      exact hall
    · cases hstray.symm.trans hstep

/-- Where the first directives lead one level too deep, that is reported and nothing after it is fed. -/
theorem feedAll_descends {sources : Sources} {levels : Nat} {unit text : String}
    {before : List Token} {pos : Position} (hdescends : sources.Descends levels unit text before pos)
    (h : n.Formed) {after : List GroupKind} (haccepted : before.foldlM recoverStep n.kinds = some after) :
    ∃ n', n.Takes before n' ∧ feedAll (includeFrom sources levels) atEnd (Token.scan unit text) n =
      (n'.inject (.includeTooDeep pos), .stop) := by
  induction hdescends generalizing n atEnd with
  | here hfirst =>
    obtain ⟨hown, t, rest, hscan, ht, rfl⟩ := hfirst
    obtain ⟨n', htakes, -, hall⟩ := feedAll_accepted h hown haccepted (.ok t :: rest)
    refine ⟨n', htakes, ?_⟩
    rw [hscan, hall, feedAll_directive_stop ht rfl]
  | @deeper levels _ _ name included _ _ _ _ hfirst hload _ ih =>
    obtain ⟨hown, t, rest, hscan, ht, rfl⟩ := hfirst
    rw [List.foldlM_append] at haccepted
    obtain ⟨next, hbefore, hafter⟩ := Option.bind_eq_some_iff.mp haccepted
    obtain ⟨n₁, htakes, rfl, hall⟩ := feedAll_accepted h hown hbefore (.ok t :: rest)
    obtain ⟨n', hinner, hdeep⟩ := ih htakes.formed hafter
    refine ⟨n', htakes.trans hinner, ?_⟩
    rw [hscan, hall]
    refine feedAll_directive_stop ht ?_
    rw [includeFrom, hload]
    exact hdeep

end

end Nesting

namespace Item

theorem tokensOf_subset_keptOf {items : List Item} (h : ∀ i ∈ items, i.tokens ⊆ i.kept) :
    tokensOf items ⊆ keptOf items := by
  induction items with
  | nil => exact List.Subset.refl _
  | cons i items ih =>
    obtain ⟨hi, hitems⟩ := List.forall_mem_cons.mp h
    exact List.append_subset.mpr ⟨List.subset_append_of_subset_left _ hi,
      List.subset_append_of_subset_right _ (ih hitems)⟩

/-- Groups hold no tokens but those that they were made from. -/
theorem Formed.tokens_subset {i : Item} (h : i.Formed) : i.tokens ⊆ i.kept := by
  induction h with
  | token => exact List.Subset.refl _
  | error => exact List.Subset.refl _
  | @group kind opened closed items _ hcloses _ ih =>
    have hitems := tokensOf_subset_keptOf ih
    intro t ht
    have hcases : t = opened ∨ t ∈ tokensOf items ∨ t = closed := by
      simpa [tokens] using ht
    rcases hcases with rfl | hin | rfl
    · exact List.mem_cons_self
    · exact List.mem_cons_of_mem _ (List.mem_append_left _ (hitems hin))
    · rcases hcloses with hfits | rfl
      · simp [kept, hfits]
      · exact List.mem_cons_self

end Item

namespace Sources

variable {sources : Sources} {unit source name text : String} {before again : List Token}
  {directive pos : Position}

/-- A file whose first directive names the file itself leads on and on. -/
theorem Descends.of_self (h : Token.FirstIncludes unit source before name directive)
    (hload : sources.load name = some (.ok text)) (hself : Token.FirstIncludes name text again name pos)
    (count : Nat) :
    sources.Descends (count + 1) unit source (before ++ (List.replicate (count + 1) again).flatten) pos := by
  induction count generalizing unit source before directive with
  | zero => simpa using Descends.deeper h hload (.here hself)
  | succ count ih =>
    rw [List.replicate_succ, List.flatten_cons]
    exact .deeper h hload (ih hself)

end Sources

/-- What is accepted once is accepted again and again. -/
theorem foldlM_recoverStep_replicate {ts : List Token} {after : List GroupKind}
    (h : ts.foldlM recoverStep [] = some after) (count : Nat) (open_ : List GroupKind) :
    ∃ last, (List.replicate count ts).flatten.foldlM recoverStep open_ = some last := by
  induction count generalizing open_ with
  | zero => exact ⟨open_, rfl⟩
  | succ count ih =>
    have hfirst : ts.foldlM recoverStep open_ = some (after ++ open_) := by
      simpa using foldlM_recoverStep_append h open_
    obtain ⟨last, hlast⟩ := ih (after ++ open_)
    refine ⟨last, ?_⟩
    rw [List.replicate_succ, List.flatten_cons, List.foldlM_append, hfirst]
    exact hlast

namespace Group

/-- Where the first directives lead too deep, the groups hold just the tokens before the directive that is
too deep, and the root reports it. -/
theorem assemble_tooDeep {sources : Sources} {unit source : String} {before : List Token} {pos : Position}
    (h : sources.Descends maxIncludeDepth unit source before pos) {after : List GroupKind}
    (haccepted : before.foldlM recoverStep [] = some after) :
    .includeTooDeep pos ∈ (assemble sources unit source).errors ∧
    Item.keptOf (assemble sources unit source).items = before ∧
    (∀ t ∈ Item.tokensOf (assemble sources unit source).items, t ∈ before) ∧
    (assemble sources unit source).closed = (assemble sources unit source).opened := by
  have hbegin : Nesting.Formed { root := ⟨.root, ⟨.eof, .start unit⟩, []⟩ } := ⟨by simp, by simp⟩
  obtain ⟨n, htakes, hall⟩ := Nesting.feedAll_descends h hbegin haccepted
  have hdeep : assemble sources unit source = ⟨.root, ⟨.eof, .start unit⟩, ⟨.eof, .start unit⟩,
      (n.inject (.includeTooDeep pos)).unwind⟩ := by
    have hended : (n.inject (.includeTooDeep pos)).ended = none := htakes.ended
    unfold assemble
    dsimp only
    rw [hall, hended]
    rfl
  obtain ⟨hformed, hkept⟩ := (htakes.formed.inject (.includeTooDeep pos)).unwind
  have hbefore : Item.keptOf (n.inject (.includeTooDeep pos)).unwind = before := by
    rw [hkept, Nesting.kept_inject, htakes.kept]
    rfl
  rw [hdeep]
  refine ⟨List.mem_filterMap.mpr ⟨.error (.includeTooDeep pos), ?_, rfl⟩, hbefore, ?_, rfl⟩
  · exact List.mem_reverse.mpr (Nesting.root_closeSkipped _ _ List.mem_cons_self)
  · intro t ht
    have hkept := Item.tokensOf_subset_keptOf (fun i hi => (hformed i hi).tokens_subset) ht
    rwa [hbefore] at hkept

/-- Replacing directives by the texts that they name always ends. There is a finite way to feed a text with
all that it includes; each such way leads to the groups of the text, and reads no file that is nested
deeper than `maxIncludeDepth` levels. Where the first directives of the texts lead deeper, and there is no
stray closer on this way, the root reports the directive that is too deep, and the groups hold just the
tokens before it. This is so for all files that name themselves first. -/
theorem assemble_includes (sources : Sources) (unit source : String) :
    (∃ last reads, sources.Feeds 0 (.tokens (Token.scan unit source))
      { root := ⟨.root, ⟨.eof, .start unit⟩, []⟩ } last reads) ∧
    (∀ last reads, sources.Feeds 0 (.tokens (Token.scan unit source))
        { root := ⟨.root, ⟨.eof, .start unit⟩, []⟩ } last reads →
      assemble sources unit source = ⟨.root, ⟨.eof, .start unit⟩, last.1.ended.getD ⟨.eof, .start unit⟩,
        last.1.unwind⟩ ∧
      ∀ read ∈ reads, read.1 ≤ maxIncludeDepth) ∧
    (∀ before pos after, sources.Descends maxIncludeDepth unit source before pos →
      before.foldlM recoverStep [] = some after →
      .includeTooDeep pos ∈ (assemble sources unit source).errors ∧
      Item.keptOf (assemble sources unit source).items = before ∧
      (∀ t ∈ Item.tokensOf (assemble sources unit source).items, t ∈ before) ∧
      (assemble sources unit source).closed = (assemble sources unit source).opened) ∧
    ∀ before again name text directive pos, Token.FirstIncludes unit source before name directive →
      sources.load name = some (.ok text) → Token.FirstIncludes name text again name pos →
      (before.foldlM recoverStep []).isSome → (again.foldlM recoverStep []).isSome →
      .includeTooDeep pos ∈ (assemble sources unit source).errors ∧
      Item.keptOf (assemble sources unit source).items =
        before ++ (List.replicate maxIncludeDepth again).flatten := by
  have hlevels : 0 + maxIncludeDepth = maxIncludeDepth := Nat.zero_add _
  refine ⟨?_, ?_, ?_, ?_⟩
  · exact ⟨_, Sources.exists_feeds_tokens (Sources.exists_feeds_directive hlevels) _ _⟩
  · intro last reads h
    have hlast := h.eq_fed hlevels
    refine ⟨?_, h.depth_le⟩
    rw [hlast]
    rfl
  · exact fun before pos after h haccepted => assemble_tooDeep h haccepted
  · intro before again name text directive pos h hload hself hbefore hagain
    obtain ⟨open_, hopen⟩ := Option.isSome_iff_exists.mp hbefore
    obtain ⟨each, heach⟩ := Option.isSome_iff_exists.mp hagain
    obtain ⟨after, hafter⟩ := foldlM_recoverStep_replicate heach maxIncludeDepth open_
    have hdescends : sources.Descends maxIncludeDepth unit source
        (before ++ (List.replicate maxIncludeDepth again).flatten) pos := .of_self h hload hself 15
    have haccepted : (before ++ (List.replicate maxIncludeDepth again).flatten).foldlM recoverStep [] =
        some after := by
      rw [List.foldlM_append, hopen]
      exact hafter
    have hdeep := assemble_tooDeep hdescends haccepted
    exact ⟨hdeep.1, hdeep.2.1⟩

/-- A file that includes itself behind two tokens. -/
def loop : Sources where
  disk := ⟨[(["loop"], .file "x; {$I loop} y".toUTF8)]⟩
  directories := [""]

/-- A text that includes this file inside of a group: the group is left open there, and neither its closer
nor what stands behind the directive in the file is reached. -/
theorem assemble_includes_loop :
    let first : Token := ⟨.keyword .begin_, ⟨"main", 1, 1⟩⟩
    let again : List Token := [⟨.identifier "x", ⟨"loop", 1, 1⟩⟩, ⟨.symbol .semicolon, ⟨"loop", 1, 2⟩⟩]
    let before := [first] ++ (List.replicate maxIncludeDepth again).flatten
    loop.Descends maxIncludeDepth "main" "begin {$I loop} end." before ⟨"loop", 1, 4⟩ ∧
    before.foldlM recoverStep [] = some [.begin_] ∧
    .includeTooDeep ⟨"loop", 1, 4⟩ ∈ (assemble loop "main" "begin {$I loop} end.").errors ∧
    Item.keptOf (assemble loop "main" "begin {$I loop} end.").items = before ∧
    (∀ t ∈ Item.tokensOf (assemble loop "main" "begin {$I loop} end.").items, t ∈ before) ∧
    ∃ last reads, loop.Feeds 0 (.tokens (Token.scan "main" "begin {$I loop} end."))
        { root := ⟨.root, ⟨.eof, .start "main"⟩, []⟩ } last reads ∧
      ∀ read ∈ reads, read.1 ≤ maxIncludeDepth := by
  intro first again before
  have houter : Token.FirstIncludes "main" "begin {$I loop} end." [first] "loop" ⟨"main", 1, 7⟩ := by
    refine ⟨by decide, ⟨.includes "loop", ⟨"main", 1, 7⟩⟩,
      [.ok ⟨.keyword .end_, ⟨"main", 1, 17⟩⟩, .ok ⟨.symbol .dot, ⟨"main", 1, 20⟩⟩,
        .ok ⟨.eof, ⟨"main", 1, 21⟩⟩], ?_, rfl, rfl⟩
    with_unfolding_all rfl
  have hself : Token.FirstIncludes "loop" "x; {$I loop} y" again "loop" ⟨"loop", 1, 4⟩ := by
    refine ⟨by decide, ⟨.includes "loop", ⟨"loop", 1, 4⟩⟩,
      [.ok ⟨.identifier "y", ⟨"loop", 1, 14⟩⟩, .ok ⟨.eof, ⟨"loop", 1, 15⟩⟩], ?_, rfl, rfl⟩
    with_unfolding_all rfl
  have hload : loop.load "loop" = some (.ok "x; {$I loop} y") := by decide +kernel
  have hdescends : loop.Descends maxIncludeDepth "main" "begin {$I loop} end." before ⟨"loop", 1, 4⟩ :=
    .of_self houter hload hself 15
  have haccepted : before.foldlM recoverStep [] = some [.begin_] := by decide +kernel
  obtain ⟨⟨last, reads, hfeeds⟩, hall, hdeep, hagain⟩ :=
    assemble_includes loop "main" "begin {$I loop} end."
  obtain ⟨herror, hkept⟩ := hagain [first] again "loop" _ ⟨"main", 1, 7⟩ ⟨"loop", 1, 4⟩ houter hload hself
    (by decide) (by decide)
  have hbefore := (hdeep before _ _ hdescends haccepted).2.2.1
  exact ⟨hdescends, haccepted, herror, hkept, hbefore, last, reads, hfeeds, (hall last reads hfeeds).2⟩

end Group

end Pascal
