import Pascal.Parse.Cursor
import Pascal.Proofs.Caseless.Group

/-!
# Reading without regard to case

A reader matches another one when on every cursor it does what the other one does on the cursor in lower
case: both go on behind the same items, or complain alike.
-/

namespace Pascal

namespace Cursor

def lowered (c : Cursor) : Cursor := ⟨c.items.map Item.lowered, c.closed.lowered⟩

variable (c : Cursor)

theorem kind?_lowered : c.lowered.kind? = c.kind?.map Token.Kind.lowered := by
  obtain ⟨items, closed⟩ := c
  rcases items with _ | ⟨_ | _ | _, items⟩ <;> rfl

theorem pos_lowered : c.lowered.pos = c.pos := by
  obtain ⟨items, closed⟩ := c
  rcases items with _ | ⟨_ | _ | e, items⟩
  · rfl
  · rfl
  · rfl
  · cases e <;> rfl

theorem unexpected_lowered (wanted wanted' : String) :
    (c.unexpected wanted).outline = (c.lowered.unexpected wanted').outline := by
  obtain ⟨items, closed⟩ := c
  rcases items with _ | ⟨_ | _ | e, items⟩
  · rfl
  · rfl
  · rfl
  · cases e with
    | lex e => obtain ⟨cause, pos⟩ := e; cases cause <;> rfl
    | _ => rfl

end Cursor

namespace Parser

variable {α β γ δ : Type} {f : α → β} {g : γ → δ} {p : Parser α} {q : Parser β}

/-- `q` does in lower case what `p` does, and `f` takes the result of `p` to that of `q`. -/
def Matches (f : α → β) (p : Parser α) (q : Parser β) : Prop :=
  ∀ c, Checked.Matches (Prod.map f Cursor.lowered) (p c) (q c.lowered)

namespace Matches

theorem bind {k : α → Parser γ} {k' : β → Parser δ} (h : Matches f p q)
    (hk : ∀ a, Matches g (k a) (k' (f a))) : Matches g (p >>= k) (q >>= k') :=
  fun c => (h c).bind fun r => hk r.1 r.2

/-- The first steps give the same. -/
theorem bind_id {q : Parser α} {k : α → Parser γ} {k' : α → Parser δ} (h : Matches id p q)
    (hk : ∀ a, Matches g (k a) (k' a)) : Matches g (p >>= k) (q >>= k') :=
  h.bind hk

theorem pure (a : α) : Matches f (Pure.pure a) (Pure.pure (f a)) := fun _ => .ok _

theorem pure_of_eq {b : β} (a : α) (h : b = f a) : Matches f (Pure.pure a) (Pure.pure b) := by
  rw [h]
  exact pure a

/-- A last step that makes of both results what corresponds to each other. -/
theorem map {h : α → γ} {h' : β → δ} (hp : Matches f p q) (hh : ∀ a, h' (f a) = g (h a)) :
    Matches g (h <$> p) (h' <$> q) := by
  rw [← bind_pure_comp, ← bind_pure_comp]
  exact hp.bind fun a => pure_of_eq _ (hh a)

/-- Lists whose elements are the same are the same. -/
theorem of_map_id {p q : Parser (List α)} (h : Matches (List.map id) p q) : Matches id p q := by
  rwa [List.map_id_fun] at h

theorem fail {e e' : CompileError} (h : e.outline = e'.outline) :
    Matches f (Parser.fail e) (Parser.fail e') :=
  fun _ => .error h

theorem unexpected (wanted : String) : Matches f (Parser.unexpected wanted) (Parser.unexpected wanted) :=
  fun c => .error (c.unexpected_lowered wanted wanted)

theorem check {r : Checked α} {r' : Checked β} (h : Checked.Matches f r r') :
    Matches f (Parser.check r) (Parser.check r') :=
  fun c => h.bind fun a => .ok (a, c)

theorem pos : Matches id Parser.pos Parser.pos :=
  fun c => .of_eq (c.pos, c) (by rw [Cursor.pos_lowered]; rfl)

theorem isDone : Matches id Parser.isDone Parser.isDone :=
  fun c => .of_eq (c.items.isEmpty, c) (by rw [Cursor.lowered, List.isEmpty_map]; rfl)

theorem kind? : Matches (Option.map Token.Kind.lowered) Parser.kind? Parser.kind? :=
  fun c => .of_eq (c.kind?, c) (by rw [Cursor.kind?_lowered]; rfl)

theorem kindAfter? : Matches (Option.map Token.Kind.lowered) Parser.kindAfter? Parser.kindAfter? := by
  intro c
  refine .of_eq _ ?_
  rw [Prod.map_apply, ← Cursor.kind?_lowered, Cursor.lowered, Cursor.lowered, List.map_tail]

theorem skip : Matches id Parser.skip Parser.skip :=
  fun c => .of_eq ((), { c with items := c.items.tail }) (by simp [Cursor.lowered])

theorem at_ {wanted : Token.Kind → Bool} (h : ∀ k, wanted k.lowered = wanted k) :
    Matches id (Parser.at_ wanted) (Parser.at_ wanted) := by
  refine kind?.bind fun k => pure_of_eq _ ?_
  cases k with
  | none => rfl
  | some k => exact h k

/-- Passing over what is wanted if it comes next. -/
private theorem eat {wanted : Parser Bool} (h : Matches id wanted wanted) :
    Matches id (do if ← wanted then Parser.skip; return true
                   return false)
      (do if ← wanted then Parser.skip; return true
          return false) := by
  refine h.bind_id fun b => ?_
  cases b with
  | true => exact skip.bind_id fun _ => pure true
  | false => exact pure false

theorem eatKeyword (w : Keyword) : Matches id (Parser.eatKeyword w) (Parser.eatKeyword w) := by
  have hnext : Matches id (atKeyword w) (atKeyword w) := at_ fun k => k.isKeyword_lowered w
  exact eat hnext

theorem eatSymbol (s : Symbol) : Matches id (Parser.eatSymbol s) (Parser.eatSymbol s) := by
  have hnext : Matches id (atSymbol s) (atSymbol s) := at_ fun k => k.isSymbol_lowered s
  exact eat hnext

theorem expectKeyword (w : Keyword) : Matches id (Parser.expectKeyword w) (Parser.expectKeyword w) := by
  refine (eatKeyword w).bind_id fun b => ?_
  cases b with
  | true => exact pure ()
  | false => exact unexpected _

theorem expectSymbol (s : Symbol) : Matches id (Parser.expectSymbol s) (Parser.expectSymbol s) := by
  refine (eatSymbol s).bind_id fun b => ?_
  cases b with
  | true => exact pure ()
  | false => exact unexpected _

theorem identifier? : Matches (Option.map Text.lower) Parser.identifier? Parser.identifier? := by
  refine kind?.bind fun k => pure_of_eq _ ?_
  cases k with
  | none => rfl
  | some k => cases k <;> rfl

theorem identifier : Matches (Prod.map Text.lower id) Parser.identifier Parser.identifier := by
  refine identifier?.bind fun name => ?_
  cases name with
  | none => exact unexpected _
  | some name => exact pos.bind_id fun p => skip.bind_id fun _ => pure (name, p)

theorem peekGroup? (kind : GroupKind) :
    Matches (Option.map Group.lowered) (Parser.peekGroup? kind) (Parser.peekGroup? kind) := by
  rintro ⟨items, closed⟩
  rcases items with _ | ⟨_ | ⟨k, opened, closed', inner⟩ | _, items⟩
  · exact .ok _
  · exact .ok _
  · refine .of_eq ((if k = kind then some (Group.mk k opened closed' inner) else none), _) ?_
    by_cases hk : k = kind
    · simp [hk, Cursor.lowered, Group.lowered]
    · simp [hk, Cursor.lowered]
  · exact .ok _

theorem group? (kind : GroupKind) :
    Matches (Option.map Group.lowered) (Parser.group? kind) (Parser.group? kind) := by
  refine (peekGroup? kind).bind fun found => ?_
  cases found with
  | none => exact pure none
  | some found => exact skip.bind_id fun _ => pure (some found)

theorem group (kind : GroupKind) : Matches Group.lowered (Parser.group kind) (Parser.group kind) := by
  refine (group? kind).bind fun found => ?_
  cases found with
  | none => exact unexpected _
  | some found => exact pure found

theorem done : Matches id Parser.done Parser.done := by
  rintro ⟨items, closed⟩
  cases items with
  | nil => exact .ok _
  | cons i items => exact .error (Cursor.unexpected_lowered _ _ _)

theorem inside (h : Matches f p q) (g : Group) :
    Matches f (Parser.inside g p) (Parser.inside g.lowered q) := by
  have hwhole : Matches f (do let a ← p; Parser.done; return a)
      (do let a ← q; Parser.done; return a) :=
    h.bind fun a => done.bind_id fun _ => pure a
  intro c
  exact (hwhole (.ofGroup g)).bind fun r => .ok (r.1, c)

theorem repeated {p : Parser (Option α)} {q : Parser (Option β)} (h : Matches (Option.map f) p q) :
    Matches (List.map f) (Parser.repeated p) (Parser.repeated q) := by
  have hwithin : ∀ n, Matches (List.map f) (repeatWithin p n) (repeatWithin q n) := by
    intro n
    induction n with
    | zero => exact pure []
    | succ n ih =>
      refine h.bind fun found => ?_
      cases found with
      | none => exact pure []
      | some a => exact ih.bind fun as => pure (a :: as)
  intro c
  have hlength : c.lowered.items.length = c.items.length := List.length_map _
  rw [Parser.repeated, Parser.repeated, hlength]
  exact hwithin _ c

theorem iterate {step : α → Parser (Option α)} {step' : β → Parser (Option β)}
    (h : ∀ a, Matches (Option.map f) (step a) (step' (f a))) (a : α) :
    Matches f (Parser.iterate step a) (Parser.iterate step' (f a)) := by
  have hwithin : ∀ n a, Matches f (iterateWithin step n a) (iterateWithin step' n (f a)) := by
    intro n
    induction n with
    | zero => exact fun a => pure a
    | succ n ih =>
      intro a
      refine (h a).bind fun found => ?_
      cases found with
      | none => exact pure a
      | some b => exact ih b
  intro c
  have hlength : c.lowered.items.length = c.items.length := List.length_map _
  rw [Parser.iterate, Parser.iterate, hlength]
  exact hwithin _ a c

theorem commaSeparated (h : Matches f p q) :
    Matches (List.map f) (Parser.commaSeparated p) (Parser.commaSeparated q) := by
  refine h.bind fun first => Matches.bind (f := List.map f) (repeated ?_) fun others =>
    pure (first :: others)
  refine (eatSymbol .comma).bind_id fun b => ?_
  cases b with
  | false => exact pure none
  | true => exact h.bind fun a => pure (some a)

theorem commaList (h : Matches f p q) :
    Matches (List.map f) (Parser.commaList p) (Parser.commaList q) := by
  refine isDone.bind_id fun b => ?_
  cases b with
  | true => exact pure []
  | false =>
    refine h.bind fun first => Matches.bind (f := List.map f) (repeated ?_) fun others =>
      pure (first :: others)
    refine (eatSymbol .comma).bind_id fun b => ?_
    cases b with
    | false => exact pure none
    | true =>
      refine isDone.bind_id fun b => ?_
      cases b with
      | true => exact pure none
      | false => exact h.bind fun a => pure (some a)

/-- Reading on in one of two ways depends on the next token only up to case: where it is a name it is one
in lower case, and else it is the same. -/
theorem kinds {F : Option Token.Kind → Parser α} {F' : Option Token.Kind → Parser β}
    (hname : ∀ name, Matches f (F (some (.identifier name))) (F' (some (.identifier (Text.lower name)))))
    (hother : ∀ k, (∀ name, k ≠ some (.identifier name)) → Matches f (F k) (F' k)) :
    Matches f (Parser.kind? >>= F) (Parser.kind? >>= F') := by
  refine kind?.bind fun k => ?_
  cases k with
  | none => exact hother none (by simp)
  | some k =>
    cases k with
    | identifier name => exact hname name
    | _ => exact hother _ (by simp)

end Matches

end Parser

end Pascal
