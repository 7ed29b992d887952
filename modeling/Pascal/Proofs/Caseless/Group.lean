import Pascal.Proofs.Caseless.Matches
import Pascal.Proofs.Group.Expanded

/-!
# Groups without regard to case

Which tokens open and close groups does not depend on the spelling of names. So the groups of two texts
with the same tokens up to case are the same up to case.
-/

namespace Pascal

namespace Token

/-- The kind of a token with its name, if it is an identifier, in lower case. -/
def Kind.lowered : Kind → Kind
  | identifier name => identifier (Text.lower name)
  | k => k

def lowered (t : Token) : Token := { t with kind := t.kind.lowered }

/-- A token in lower case, or the outline of the fault in its place. -/
def caseless : Except LexError Token → Except LexError Token
  | .ok t => .ok t.lowered
  | .error e => .error e.outline

namespace Kind

@[simp] theorem isKeyword_lowered (k : Kind) (w : Keyword) : k.lowered.isKeyword w = k.isKeyword w := by
  cases k <;> rfl

@[simp] theorem isSymbol_lowered (k : Kind) (s : Symbol) : k.lowered.isSymbol s = k.isSymbol s := by
  cases k <;> rfl

end Kind

end Token

namespace GroupKind

@[simp] theorem openedBy?_lowered (k : Token.Kind) : openedBy? k.lowered = openedBy? k := by
  cases k <;> rfl

@[simp] theorem isCloser_lowered (k : Token.Kind) : isCloser k.lowered = isCloser k := by
  cases k <;> rfl

/-- Closers have no names. -/
theorem lowered_of_isCloser {t : Token} (h : isCloser t.kind) : t.lowered = t := by
  obtain ⟨kind, pos⟩ := t
  cases kind with
  | identifier name => cases h
  | _ => rfl

end GroupKind

mutual

def Item.lowered : Item → Item
  | .token t => .token t.lowered
  | .group kind opened closed items => .group kind opened.lowered closed.lowered (loweredItems items)
  | .error e => .error e.outline

def loweredItems : List Item → List Item
  | [] => []
  | i :: is => i.lowered :: loweredItems is

end

attribute [simp] Item.lowered

@[simp] theorem loweredItems_eq (items : List Item) : loweredItems items = items.map Item.lowered := by
  induction items with
  | nil => rfl
  | cons i items ih => rw [loweredItems, ih, List.map_cons]

def Group.lowered (g : Group) : Group :=
  ⟨g.kind, g.opened.lowered, g.closed.lowered, g.items.map Item.lowered⟩

def OpenGroup.lowered (g : OpenGroup) : OpenGroup :=
  ⟨g.kind, g.opened.lowered, g.items.map Item.lowered⟩

theorem OpenGroup.close_lowered (g : OpenGroup) (t : Token) :
    g.lowered.close t.lowered = (g.close t).lowered := by
  simp [OpenGroup.close, OpenGroup.lowered]

namespace Nesting

def lowered (n : Nesting) : Nesting :=
  ⟨n.root.lowered, n.inner.map OpenGroup.lowered, n.ended.map Token.lowered⟩

variable (n : Nesting)

theorem add_lowered (i : Item) : n.lowered.add i.lowered = (n.add i).lowered := by
  obtain ⟨root, inner, ended⟩ := n
  cases inner <;> rfl

theorem inject_lowered (e : GroupError) : n.lowered.inject e.outline = (n.inject e).lowered := by
  simp [inject, lowered, OpenGroup.lowered, OpenGroup.add]

theorem top_lowered : n.lowered.top = n.top.lowered := by
  obtain ⟨root, inner, ended⟩ := n
  cases inner <;> rfl

theorem closeTop_lowered (t : Token) : n.lowered.closeTop t.lowered = (n.closeTop t).lowered := by
  obtain ⟨root, inner, ended⟩ := n
  cases inner with
  | nil => rfl
  | cons g gs =>
    change ({ (⟨root, gs, ended⟩ : Nesting).lowered with } : Nesting).add (g.lowered.close t.lowered) = _
    rw [OpenGroup.close_lowered, add_lowered]
    rfl

theorem closeSkipped_lowered (k : Nat) : n.lowered.closeSkipped k = (n.closeSkipped k).lowered := by
  induction k generalizing n with
  | zero => rfl
  | succ k ih =>
    rw [closeSkipped, closeSkipped, top_lowered, ← ih, ← closeTop_lowered]
    rfl

theorem feed_lowered (t : Token) :
    n.lowered.feed t.lowered = ((n.feed t).1.lowered, (n.feed t).2) := by
  have hopened : GroupKind.openedBy? t.lowered.kind = GroupKind.openedBy? t.kind :=
    GroupKind.openedBy?_lowered t.kind
  have hcloser : GroupKind.isCloser t.lowered.kind = GroupKind.isCloser t.kind :=
    GroupKind.isCloser_lowered t.kind
  unfold feed
  rw [hopened, hcloser]
  cases GroupKind.openedBy? t.kind with
  | some kind => rfl
  | none =>
    cases hc : GroupKind.isCloser t.kind with
    | false => exact Prod.ext (n.add_lowered (.token t)) rfl
    | true =>
      have ht : t.lowered = t := GroupKind.lowered_of_isCloser hc
      have hfound : n.lowered.inner.findIdx? (fun g => g.kind.closedBy t.kind) =
          n.inner.findIdx? (fun g => g.kind.closedBy t.kind) := List.findIdx?_map
      have hinject : ∀ e : GroupError, e.outline = e → n.lowered.inject e = (n.inject e).lowered := by
        intro e he
        rw [← inject_lowered, he]
      have hclose : ∀ n : Nesting, n.lowered.closeTop t = (n.closeTop t).lowered := by
        intro n
        rw [← closeTop_lowered, ht]
      have hkind : n.lowered.top.kind = n.top.kind := by rw [top_lowered]; rfl
      have hopenedAt : n.lowered.top.opened.pos = n.top.opened.pos := by rw [top_lowered]; rfl
      rw [ht, hfound]
      simp only [Bool.not_true, Bool.false_eq_true, if_false]
      generalize n.inner.findIdx? (fun g => g.kind.closedBy t.kind) = found
      rcases found with _ | _ | skipped
      · exact Prod.ext (hinject _ rfl) rfl
      · exact Prod.ext (hclose n) rfl
      · refine Prod.ext ?_ rfl
        simp only [hkind, hopenedAt]
        rw [hinject _ rfl, closeSkipped_lowered, hclose]

theorem finish_lowered (t : Token) : n.lowered.finish t.lowered = (n.finish t).lowered := by
  obtain ⟨root, inner, ended⟩ := n
  cases inner with
  | nil => rfl
  | cons g gs =>
    have h := inject_lowered ⟨root, g :: gs, ended⟩ (.unclosed g.kind g.opened.pos t.pos)
    exact congrArg (fun n : Nesting => { n with ended := some t.lowered }) h

theorem unwind_lowered : n.lowered.unwind = n.unwind.map Item.lowered := by
  have hlength : n.lowered.inner.length = n.inner.length := List.length_map _
  rw [unwind, hlength, closeSkipped_lowered, unwind, List.map_reverse]
  rfl

/-- A text without directives is fed in lower case as it is fed. -/
theorem feedAll_lowered {including : String → Position → Nesting → Nesting × Flow}
    {ts : List (Except LexError Token)}
    (hts : ∀ t, .ok t ∈ ts → ∀ name, t.kind ≠ .includes name) :
    feedAll including (fun eof n => (n.finish eof, .stop)) (ts.map Token.caseless) n.lowered =
      ((feedAll including (fun eof n => (n.finish eof, .stop)) ts n).1.lowered,
        (feedAll including (fun eof n => (n.finish eof, .stop)) ts n).2) := by
  induction ts generalizing n with
  | nil => rfl
  | cons r ts ih =>
    have hrest : ∀ t, .ok t ∈ ts → ∀ name, t.kind ≠ .includes name :=
      fun t ht => hts t (List.mem_cons_of_mem _ ht)
    cases r with
    | error e => exact Prod.ext (n.inject_lowered (.lex e)) rfl
    | ok t =>
      have hfinish : t.kind = .eof → feedAll including (fun eof n => (n.finish eof, .stop))
          ((Except.ok t :: ts).map Token.caseless) n.lowered =
          ((feedAll including (fun eof n => (n.finish eof, .stop)) (.ok t :: ts) n).1.lowered,
            (feedAll including (fun eof n => (n.finish eof, .stop)) (.ok t :: ts) n).2) := by
        intro ht
        have htlow : t.lowered.kind = .eof := by rw [Token.lowered, ht]; rfl
        rw [List.map_cons, Token.caseless, feedAll_eof htlow, feedAll_eof ht, finish_lowered]
      have hfeed : isInner t → feedAll including (fun eof n => (n.finish eof, .stop))
          ((Except.ok t :: ts).map Token.caseless) n.lowered =
          ((feedAll including (fun eof n => (n.finish eof, .stop)) (.ok t :: ts) n).1.lowered,
            (feedAll including (fun eof n => (n.finish eof, .stop)) (.ok t :: ts) n).2) := by
        intro ht
        have htlow : isInner t.lowered := by
          obtain ⟨kind, pos⟩ := t
          cases kind <;> exact ht
        rw [List.map_cons, Token.caseless, feedAll_inner htlow, feedAll_inner ht, feed_lowered]
        rcases n.feed t with ⟨n, _ | _⟩
        · exact ih n hrest
        · rfl
      cases hkind : t.kind with
      | eof => exact hfinish hkind
      | includes name => exact absurd hkind (hts t List.mem_cons_self name)
      | _ => exact hfeed (by simp [isInner, hkind])

end Nesting

/-- Texts without directives that have the same tokens up to case have the same groups up to case. -/
theorem Group.assemble_lowered {sources : Sources} {unit source source' : String}
    (hscan : (Token.scan unit source).map Token.caseless = (Token.scan unit source').map Token.caseless)
    (hplain : ∀ t, .ok t ∈ Token.scan unit source → ∀ name, t.kind ≠ .includes name)
    (hplain' : ∀ t, .ok t ∈ Token.scan unit source' → ∀ name, t.kind ≠ .includes name) :
    (Group.assemble sources unit source).lowered = (Group.assemble sources unit source').lowered := by
  have hassemble : ∀ source, (∀ t, .ok t ∈ Token.scan unit source → ∀ name, t.kind ≠ .includes name) →
      (Group.assemble sources unit source).lowered =
        let start : Token := ⟨.eof, Position.start unit⟩
        let n := (Nesting.feedAll (Nesting.includeFrom sources maxIncludeDepth)
          (fun eof n => (n.finish eof, .stop)) ((Token.scan unit source).map Token.caseless)
          { root := ⟨.root, start, []⟩ }).1
        ⟨.root, start, n.ended.getD start, n.unwind⟩ := by
    intro source hplain
    let start : Token := ⟨.eof, Position.start unit⟩
    let n : Nesting := { root := ⟨.root, start, []⟩ }
    have hfed : (Nesting.feedAll (Nesting.includeFrom sources maxIncludeDepth)
        (fun eof n => (n.finish eof, .stop)) ((Token.scan unit source).map Token.caseless) n).1 =
        (Nesting.feedAll (Nesting.includeFrom sources maxIncludeDepth)
          (fun eof n => (n.finish eof, .stop)) (Token.scan unit source) n).1.lowered :=
      congrArg Prod.fst (n.feedAll_lowered hplain)
    have hclosed : ∀ last : Nesting, last.lowered.ended.getD start = (last.ended.getD start).lowered := by
      rintro ⟨root, inner, ended⟩
      cases ended <;> rfl
    dsimp only
    rw [hfed, Nesting.unwind_lowered, hclosed]
    rfl
  rw [hassemble source hplain, hassemble source' hplain', hscan]

end Pascal
