import Pascal.Proofs.Typing.Operator

/-! # Conversions of values -/

namespace Pascal.Conversion

variable {cells : List Ty} {v : Value} {d : Discipline}

/-- When a type converts to another one. -/
inductive Converts : Ty → Ty → Conversion → Prop where
  | toAny {t : Ty} {c : Conversion} (h : c = identity ∨ c = Conversion.toAny) : Converts t .any c
  | basic {b b' : Basic} {c : Conversion} (h : ofBasic? b b' = some c) :
      Converts (.basic b) (.basic b') c
  | keep {e e' : Ty} {r r' : Subrange} {inner : Conversion} (hr : r.fits r')
      (h : Converts e e' inner) (hinner : inner = identity ∨ inner = Conversion.toAny) :
      Converts (.array e r) (.array e' r') identity
  | each {e e' : Ty} {r r' : Subrange} {inner : Conversion} (hr : r.fits r')
      (h : Converts e e' inner) : Converts (.array e r) (.array e' r') (elements inner)
  | pointer {t t' : Ty} (h : t.agrees t') : Converts (.pointer t) (.pointer t') identity
  | nil {t : Ty} (h : t = .nil ∨ ∃ t', t = .pointer t') : Converts .nil t nilToPointer
  | varargs {e e' : Ty} {c : Conversion} : Converts (.varargs e) (.varargs e') c
  | text : Converts .text .text identity

theorem converts {t t' : Ty} {c : Conversion} (h : between? t t' = some c) : Converts t t' c := by
  induction t generalizing t' c with
  | array e r ih =>
    cases t' with
    | any => cases h; exact .toAny (by simp [Ty.isAny])
    | array e' r' =>
      rw [between?] at h
      split at h
      · next hr =>
        split at h
        · cases h
        · next hi => cases h; exact .keep hr (ih hi) (.inl rfl)
        · next hi => cases h; exact .keep hr (ih hi) (.inr rfl)
        · next hi => cases h; exact .each hr (ih hi)
      · cases h
    | _ => cases h
  | basic b =>
    cases t' with
    | any => cases h; exact .toAny (by simp [Ty.isAny])
    | basic b' => exact .basic h
    | _ => cases h
  | pointer t =>
    cases t' with
    | any => cases h; exact .toAny (by simp [Ty.isAny])
    | pointer t' =>
      rw [between?] at h
      split at h
      · next ha => cases h; exact .pointer ha
      · cases h
    | _ => cases h
  | varargs e =>
    cases t' with
    | any => cases h; exact .toAny (by simp [Ty.isAny])
    | varargs e' => exact .varargs
    | _ => cases h
  | any =>
    cases t' with
    | any => cases h; exact .toAny (by simp [Ty.isAny])
    | _ => cases h
  | text =>
    cases t' with
    | any => cases h; exact .toAny (by simp [Ty.isAny])
    | text => cases h; exact .text
    | _ => cases h
  | nil =>
    cases t' with
    | any => cases h; exact .toAny (by simp [Ty.isAny])
    | pointer t' => cases h; exact .nil (.inr ⟨t', rfl⟩)
    | nil => cases h; exact .nil (.inl rfl)
    | _ => cases h

private theorem basic_gives {b b' : Basic} {c : Conversion} (h : ofBasic? b b' = some c)
    (hv : v.basic? = some b) : Gives (c.apply v) (·.basic? = some b') := by
  cases b <;> cases b' <;> cases h <;> cases v <;> cases hv <;> rfl

private theorem mapM_gives {α β : Type} {f : α → Except Fault β} {Q : β → Prop} {items : List α}
    (h : ∀ item ∈ items, Gives (f item) Q) :
    Gives (items.mapM f) (fun ys => ys.length = items.length ∧ ∀ y ∈ ys, Q y) := by
  induction items with
  | nil => exact ⟨rfl, by simp⟩
  | cons item items ih =>
    rw [List.mapM_cons]
    refine (h item List.mem_cons_self).bind fun y hy => ?_
    refine (ih fun i hi => h i (List.mem_cons_of_mem _ hi)).bind fun ys hys => ?_
    exact ⟨by simpa using hys.1, by simpa using ⟨hy, hys.2⟩⟩

private theorem mapM_eq_self {α : Type} {f : α → Except Fault α} {items : List α}
    (h : ∀ item ∈ items, f item = .ok item) : items.mapM f = .ok items := by
  induction items with
  | nil => rfl
  | cons item items ih =>
    rw [List.mapM_cons, h item List.mem_cons_self, ih fun i hi => h i (List.mem_cons_of_mem _ hi)]
    rfl

private theorem admits_of_fits {r r' : Subrange} {lower : Int64} {length : Nat} (hr : r.fits r')
    (h : Subrange.Admits (if d.bounds then r else .unbounded) lower length) :
    Subrange.Admits (if d.bounds then r' else .unbounded) lower length := by
  cases hb : d.bounds with
  | false => rw [hb] at h; exact h
  | true =>
    rw [hb, if_pos rfl] at h
    rw [if_pos rfl]
    intro hopen
    obtain rfl := Subrange.fits_closed hr hopen
    exact h hopen

/-- A conversion gives a value of the type that is expected. -/
theorem apply_gives {t t' : Ty} {c : Conversion} (h : Converts t t' c) (ht : t.Tame d)
    (ht' : t'.Tame d) (hv : v.HasType cells (t.outline d.bounds)) :
    Gives (c.apply v) (Value.HasType cells (t'.outline d.bounds)) := by
  induction h generalizing v with
  | toAny h => rcases h with rfl | rfl <;> trivial
  | basic h => exact basic_gives h hv
  | keep hr _ hinner ih =>
    obtain ⟨lower, items, rfl, ha, hitems⟩ := hv
    refine ⟨lower, items, rfl, admits_of_fits hr ha, fun item hi => ?_⟩
    have ih := ih (Ty.Tame.array.mp ht) (Ty.Tame.array.mp ht') (hitems item hi)
    rcases hinner with rfl | rfl <;> exact ih
  | each hr _ ih =>
    obtain ⟨lower, items, rfl, ha, hitems⟩ := hv
    refine (mapM_gives fun item hi =>
      ih (Ty.Tame.array.mp ht) (Ty.Tame.array.mp ht') (hitems item hi)).bind ?_
    rintro ys ⟨hlength, hys⟩
    exact ⟨lower, ys, rfl, hlength ▸ admits_of_fits hr ha, hys⟩
  | pointer h =>
    obtain ⟨target, rfl, htarget⟩ := hv
    refine ⟨target, rfl, fun r hr => ?_⟩
    rw [← Ty.pointer_agrees h ht ht']
    exact htarget r hr
  | nil h =>
    obtain rfl : v = .pointer none := hv
    rcases h with rfl | ⟨t', rfl⟩
    · rfl
    · exact ⟨none, rfl, by simp⟩
  | varargs => cases ht.ground
  | text => exact hv

/-- Where only the type changes, the value stays as it is. -/
theorem apply_of_isRetype {t t' : Ty} {c : Conversion} (h : Converts t t' c) (hc : c.isRetype)
    (ht : t.Tame d) (hv : v.HasType cells (t.outline d.bounds)) : c.apply v = .ok v := by
  induction h generalizing v with
  | toAny h => rcases h with rfl | rfl <;> rfl
  | basic h => rename_i b b' c; cases b <;> cases b' <;> cases h <;> first | rfl | cases hc
  | each hr _ ih =>
    obtain ⟨lower, items, rfl, -, hitems⟩ := hv
    have hmap := mapM_eq_self fun i hi => ih hc (Ty.Tame.array.mp ht) (hitems i hi)
    simp only [apply, hmap]
    rfl
  | varargs => cases ht.ground
  | _ => rfl

end Pascal.Conversion
