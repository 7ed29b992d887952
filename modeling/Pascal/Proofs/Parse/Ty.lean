import Pascal.Proofs.Parse.Expr

/-! # Every type and every initial value that is read can be written -/

namespace Pascal

namespace Ty.Written

variable {ctx : Context}

/-- Arrays of several dimensions are arrays of arrays. -/
theorem dimensions {element : Ty} (he : element.Written ctx) {rs : List Subrange}
    (h : ∀ r ∈ rs, r = .unbounded ∨ ∃ lower upper, Subrange.between? lower upper = some r) :
    (rs.foldr (fun bounds ty => .array ty bounds) element).Written ctx := by
  induction rs with
  | nil => exact he
  | cons r rs ih =>
    have ih := ih fun r hr => h r (List.mem_cons_of_mem _ hr)
    rcases h r List.mem_cons_self with rfl | ⟨lower, upper, hr⟩
    · exact .openArray ih
    · exact .array ih hr

end Ty.Written

namespace Parser

variable {ranges : Bool} {ctx : Context}

section Guarded

variable {I : Cursor → Prop} (hI : Cursor.Guard ranges I)

include hI

theorem Yields.expression :
    (Parser.expression ctx).Yields I (Expr.Built ranges ctx) :=
  Builds.expression ranges ctx _ hI

theorem Yields.constant :
    (Parser.constant ctx).Yields I (fun r =>
      ∃ e, Expr.Built ranges ctx e ∧ e.evaluate = .ok (r.1, r.2.1)) :=
  (Yields.expression hI).bind fun e he => Yields.check.bind fun _ h => .pure ⟨e, he, h⟩

theorem Yields.constantOrdinal :
    (Parser.constantOrdinal ctx).Yields I (fun r => r.2.1.isOrdinal) := by
  refine (Yields.constant hI).bind ?_
  rintro ⟨v, ty, p⟩ -
  dsimp only
  split
  · exact Yields.bind (Q := fun _ => False) Yields.fail fun _ h => h.elim
  · next h =>
    split
    · exact .pure (by simpa using h)
    · exact Yields.fail

theorem Yields.integerBound :
    (Parser.integerBound ctx).Yields I (fun _ => True) := by
  refine (Yields.constant hI).bind ?_
  rintro ⟨v, ty, p⟩ -
  split
  · exact .pure trivial
  · exact .pure trivial
  · exact Yields.fail

theorem Yields.dimension :
    (Parser.dimension ctx).Yields I (fun r =>
      r = .unbounded ∨ ∃ lower upper, Subrange.between? lower upper = some r) := by
  refine (Yields.integerBound hI).bind fun (lower, p) _ => ?_
  refine (Yields.expectSymbol hI).bind fun _ _ => ?_
  refine (Yields.integerBound hI).bind fun (upper, _) _ => ?_
  dsimp only
  split
  · next r hr => exact .pure (.inr ⟨lower, upper, hr⟩)
  · exact Yields.fail

theorem Yields.rangeType :
    (Parser.rangeType ctx).Yields I (Ty.Written ctx) := by
  refine (Yields.constantOrdinal hI).bind fun (lower, ty, p) hty => ?_
  refine (Yields.expectSymbol hI).bind fun _ _ => ?_
  refine (Yields.constantOrdinal hI).bind fun (upper, _, _) _ => ?_
  dsimp only
  split
  · exact Yields.bind (Q := fun _ => False) Yields.fail fun _ h => h.elim
  · exact .pure (.range hty)

theorem Yields.namedType {name : String} :
    (Parser.namedType ctx name).Meets
      (fun c => I c ∧ c.kind? = some (.identifier name))
      (fun ty c => ty.Written ctx ∧ I c) := by
  have hpos : Parser.pos.Meets (fun c => I c ∧ c.kind? = some (.identifier name))
      (fun _ c => I c ∧ c.kind? = some (.identifier name)) := by
    intro c p c' hc h
    cases h
    exact hc
  refine hpos.bind fun p => ?_
  split
  · next ty hty => exact Yields.skip hI (by simp [Cursor.IsMark]) (.pure (.declared hty))
  · dsimp only
    split
    · next ty hty =>
      refine Yields.skip hI (by simp [Cursor.IsMark]) ?_
      split
      · exact (Yields.group? hI).bind fun _ _ => .pure (.builtin hty)
      · exact .pure (.builtin hty)
    · split
      · exact (Yields.rangeType hI).given
      · exact Yields.fail.given

theorem Yields.type : (Parser.type ctx).Yields I (Ty.Written ctx) := by
  have hfair := Cursor.guard_fair ranges
  have hw : ∀ n, (typeWithin ctx n).Yields I (Ty.Written ctx) := by
    intro n
    induction n with
    | zero => exact Yields.unexpected
    | succ n ih =>
      refine Yields.pos.bind fun p _ => Yields.peekGroup?.bind fun g _ => ?_
      dsimp only
      split
      · exact Yields.bind (Q := fun _ => False) Yields.fail fun _ h => h.elim
      · refine Yields.peekGroup?.bind fun g _ => ?_
        split
        · exact Yields.bind (Q := fun _ => False) Yields.fail fun _ h => h.elim
        · refine Meets.bind (Meets.kind (I := I)) fun k => ?_
          split
          · exact Yields.unexpected.given
          · exact (Yields.namedType hI)
          · rw [← bind_assoc]
            refine Meets.bind (Yields.arrayBounds hI) fun g => ?_
            have rest : ∀ rs : List Subrange, (∀ r ∈ rs, r = .unbounded ∨
                ∃ lower upper, Subrange.between? lower upper = some r) →
                Parser.Yields I (do
                  Parser.expectKeyword .of
                  let element ← typeWithin ctx n
                  return rs.foldr (fun bounds ty => .array ty bounds) element) (Ty.Written ctx) := by
              intro rs hrs
              exact (Yields.expectKeyword hI (by simp)).bind fun _ _ =>
                ih.bind fun element he => .pure (he.dimensions hrs)
            cases g with
            | some g =>
              intro c a c' hc h
              exact (Yields.bind (Yields.inside (hc.1 g rfl)
                (Yields.commaSeparated hfair (Yields.dimension hfair))) rest) hc.2 h
            | none =>
              intro c a c' hc h
              exact rest [.unbounded] (by simp) hc.2 h
          · exact Yields.skip hI (by simp [Cursor.IsMark])
              (ih.bind fun ty hty => .pure (.pointer hty))
          · exact (Yields.rangeType hI).given
  exact fun c _ _ hc h => hw _ hc h

private theorem evaluated_yields {ty : Ty} :
    Parser.Yields I (do Parser.check ((← Parser.expression ctx).evaluateAs ty))
      (Value.Initial ranges ctx ty) :=
  (Yields.expression hI).bind fun _ he => Yields.check.mono fun _ h => .evaluated he h

theorem Yields.initializer {ty : Ty} :
    (Parser.initializer ctx ty).Yields I (Value.Initial ranges ctx ty) := by
  have hfair := Cursor.guard_fair ranges
  induction ty generalizing I with
  | array element bounds ih =>
    refine (Yields.group? hI).bind fun g hg => ?_
    cases g with
    | none => exact evaluated_yields hI
    | some g =>
      refine (Yields.inside (hg g rfl).1 (Yields.commaList hfair (ih hfair))).bind ?_
      intro items hitems
      split
      · exact Yields.bind (Q := fun _ => False) Yields.fail fun _ h => h.elim
      · next h =>
        refine .pure (.list hitems ?_)
        by_cases hb : bounds.isOpen
        · exact .inl hb
        · exact .inr (by simpa [hb] using h)
  | _ => exact evaluated_yields hI

end Guarded

end Parser

end Pascal
