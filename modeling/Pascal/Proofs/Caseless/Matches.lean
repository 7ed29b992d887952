import Pascal.CompileError

/-!
# Results up to what complaints quote

A complaint quotes names and words of the text. Its outline leaves them out, and keeps its kind, its
place, and the types and places it tells. One result matches another one when both are complaints of one
outline, or when a map takes the one to the other.
-/

namespace Pascal

/-- The cause without the characters it quotes. -/
def LexError.Cause.outline : LexError.Cause → LexError.Cause
  | unexpectedCharacter _ => unexpectedCharacter default
  | invalidNumber _ => invalidNumber ""
  | invalidCharCode _ => invalidCharCode ""
  | unterminatedString => unterminatedString
  | unterminatedComment => unterminatedComment

def LexError.outline (e : LexError) : LexError := ⟨e.cause.outline, e.pos⟩

/-- The error without the characters that a fault quotes. Closers are the same in any spelling. -/
def GroupError.outline : GroupError → GroupError
  | lex e => lex e.outline
  | e => e

/-- The error without the names it quotes. -/
def ScopeError.outline : ScopeError → ScopeError
  | unresolvedIdentifier _ p => unresolvedIdentifier "" p
  | namingConflict _ kind p previousKind previous => namingConflict "" kind p previousKind previous
  | duplicateBody _ p previous => duplicateBody "" p previous
  | missingBody _ p => missingBody "" p
  | ambiguousOverload _ arguments p => ambiguousOverload "" arguments p
  | noApplicableOverload _ arguments p => noApplicableOverload "" arguments p
  | misplacedVarargs _ p => misplacedVarargs "" p
  | libraryNotFound _ p => libraryNotFound "" p
  | libraryUnreadable _ message p => libraryUnreadable "" message p
  | circularUnit _ p => circularUnit "" p
  | unknownType _ p => unknownType "" p
  | notCallable _ p => notCallable "" p
  | notAssignable _ p => notAssignable "" p
  | outsideLoop statement p => outsideLoop statement p

/-- The error without the name it quotes. -/
def TypeError.outline : TypeError → TypeError
  | noValue _ p => noValue "" p
  | e => e

/-- The error without the tokens it quotes. -/
def SyntaxError.outline : SyntaxError → SyntaxError
  | expected _ _ p => expected "" "" p
  | e => e

/-- The complaint without the names and words it quotes. -/
def CompileError.outline : CompileError → CompileError
  | group e => group e.outline
  | scope e => scope e.outline
  | type e => type e.outline
  | grammar e => grammar e.outline
  | crash p => crash p

@[simp] theorem CompileError.pos_outline (e : CompileError) : e.outline.pos = e.pos := by
  cases e with
  | group e => cases e <;> rfl
  | scope e => cases e <;> rfl
  | type e => cases e <;> rfl
  | grammar e => cases e <;> rfl
  | crash _ => rfl

/-- What goes well is taken to the other result by `f`; what goes wrong has the same outline. -/
inductive Matches {ε α β : Type} (outline : ε → ε) (f : α → β) : Except ε α → Except ε β → Prop
  | ok (a : α) : Matches outline f (.ok a) (.ok (f a))
  | error {e e' : ε} (h : outline e = outline e') : Matches outline f (.error e) (.error e')

namespace Matches

variable {ε α β γ δ : Type} {outline : ε → ε} {f : α → β} {g : γ → δ} {r : Except ε α}
  {r' : Except ε β}

theorem of_eq {b : β} (a : α) (h : b = f a) : Matches outline f (.ok a) (.ok b) := by
  rw [h]
  exact .ok a

theorem bind {k : α → Except ε γ} {k' : β → Except ε δ} (h : Matches outline f r r')
    (hk : ∀ a, Matches outline g (k a) (k' (f a))) : Matches outline g (r >>= k) (r' >>= k') := by
  cases h with
  | ok a => exact hk a
  | error h => exact .error h

/-- The first steps give the same. -/
theorem bind_id {r r' : Except ε α} {k : α → Except ε γ} {k' : α → Except ε δ}
    (h : Matches outline id r r') (hk : ∀ a, Matches outline g (k a) (k' a)) :
    Matches outline g (r >>= k) (r' >>= k') :=
  h.bind hk

theorem refl (r : Except ε α) : Matches outline id r r := by
  cases r with
  | ok a => exact .ok a
  | error e => exact .error rfl

/-- Two results that match a third one are complaints of one outline, or the map takes both to it. -/
theorem both {r₁ r₂ : Except ε α} (h₁ : Matches outline f r₁ r') (h₂ : Matches outline f r₂ r') :
    (∃ e₁ e₂, r₁ = .error e₁ ∧ r₂ = .error e₂ ∧ outline e₁ = outline e₂) ∨
      ∃ a₁ a₂, r₁ = .ok a₁ ∧ r₂ = .ok a₂ ∧ f a₁ = f a₂ := by
  cases h₁ with
  | ok a₁ =>
    generalize hb : f a₁ = b at h₂
    cases h₂ with
    | ok a₂ => exact .inr ⟨a₁, a₂, rfl, rfl, hb⟩
  | error h =>
    cases h₂ with
    | error h' => exact .inl ⟨_, _, rfl, rfl, h.trans h'.symm⟩

theorem foldlM {ι : Type} {step : α → ι → Except ε α} {step' : β → ι → Except ε β}
    (h : ∀ a i, Matches outline f (step a i) (step' (f a) i)) (is : List ι) (a : α) :
    Matches outline f (is.foldlM step a) (is.foldlM step' (f a)) := by
  induction is generalizing a with
  | nil => exact .ok a
  | cons i is ih =>
    rw [List.foldlM_cons, List.foldlM_cons]
    exact (h a i).bind ih

theorem mapM {ι κ : Type} {step : ι → Except ε α} {step' : κ → Except ε β} {h : ι → κ}
    (hstep : ∀ i, Matches outline f (step i) (step' (h i))) (is : List ι) :
    Matches outline (List.map f) (is.mapM step) ((is.map h).mapM step') := by
  induction is with
  | nil => exact .ok []
  | cons i is ih =>
    rw [List.map_cons, List.mapM_cons, List.mapM_cons]
    exact (hstep i).bind fun a => ih.bind fun as => .ok (a :: as)

end Matches

/-- Results of reading a text match each other. -/
abbrev Checked.Matches {α β : Type} (f : α → β) (r : Checked α) (r' : Checked β) : Prop :=
  Pascal.Matches CompileError.outline f r r'

/-- What is found wrong in scopes as what is found wrong in a text. -/
theorem Matches.scope {α β : Type} {f : α → β} {r : Except ScopeError α} {r' : Except ScopeError β}
    (h : Matches ScopeError.outline f r r') :
    Checked.Matches f (r.mapError .scope) (r'.mapError .scope) := by
  cases h with
  | ok a => exact .ok a
  | error h => exact .error (congrArg CompileError.scope h)

end Pascal
