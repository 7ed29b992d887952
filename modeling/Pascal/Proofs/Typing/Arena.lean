import Pascal.Library.Standard
import Pascal.Proofs.Program.Session
import Pascal.Proofs.Typing.Fold

/-!
# What is declared is well-typed

Reading goes from arenas where all that is declared is well-typed to others of that kind. Where bounds
count this asks for the types of all variables in the end.
-/

namespace Pascal

variable {d : Discipline} {a a' : Arena} {ranges : Bool} {libraries : List Library}

/-- What a library offers is well-typed. -/
structure Library.Fits (d : Discipline) (l : Library) : Prop where
  constants : ∀ name v ty, (name, v, ty) ∈ l.constants → v.Fits d ty
  types : ∀ name ty, (name, ty) ∈ l.types → ty.isWritten
  routines : ∀ r ∈ l.routines, r.signature.Tame d

/-- Where bounds count, the variables of an arena hold no pointers to open arrays. -/
def Arena.Closed (d : Discipline) (a : Arena) : Prop :=
  d.bounds → ∀ s key v, (a.scope s).entity? key = some (.var v) → v.ty.pointsClosed

theorem Arena.Closed.of_grows (h : a'.Closed d) (hg : a.Grows a') : a.Closed d :=
  fun hb s key v hv => h hb s key v (hg.var hv)

theorem Signature.Tame.of_params {s : Signature} (hp : ∀ p ∈ s.params, p.ty.Tame d)
    (hr : ∀ ty, s.result = some ty → ty.Tame d) : s.Tame d := by
  have hsplit : s.split = (s.params, none) := by
    unfold Signature.split
    split
    · next name element mode he =>
      cases (hp _ (List.mem_of_getLast? he)).ground
    · rfl
  exact ⟨by rwa [hsplit], by simp [hsplit], hr⟩

theorem Ty.Written.isWritten {ctx : Context} {t : Ty} (h : t.Written ctx) (hs : ctx.arena.Sound d) :
    t.isWritten := by
  induction h with
  | declared h =>
    rcases Arena.lookupType?_eq_some h with ⟨s, key, he⟩ | ⟨l, hl, k, hk, rfl⟩
    · exact hs.entities s key _ he
    · exact (hs.libraries l hl).types k hk
  | builtin h =>
    unfold Ty.builtin? at h
    split at h <;> cases h <;> rfl
  | @range t h => cases t <;> first | rfl | cases h
  | openArray _ ih => exact ih
  | array _ _ ih => exact ih
  | pointer _ ih => exact ih

namespace Expr

private theorem closes_items {items : List Expr} {vs : List Value}
    (h : itemValues? (items.map Expr.fold) = some vs)
    (hitems : ∀ e ∈ items, (e.fold.literal?.isSome → e.all (closes a) fun _ => true) ∧
      ∀ low high n, e.fold = .range low high n → low.literal?.isSome → high.literal?.isSome →
        e.all (closes a) fun _ => true) :
    ∀ e ∈ items, e.all (closes a) fun _ => true := by
  induction items generalizing vs with
  | nil => simp
  | cons e items ih =>
    obtain ⟨⟨he, hr⟩, hitems⟩ := List.forall_mem_cons.mp hitems
    rw [List.map_cons] at h
    by_cases hrange : ∃ low high n, e.fold = .range low high n
    · obtain ⟨low, high, n, hf⟩ := hrange
      rw [hf] at h
      obtain ⟨_, hlow, h⟩ := Option.bind_eq_some_iff.mp h
      obtain ⟨_, hhigh, h⟩ := Option.bind_eq_some_iff.mp h
      obtain ⟨_, -, h⟩ := Option.bind_eq_some_iff.mp h
      obtain ⟨_, hys, -⟩ := Option.bind_eq_some_iff.mp h
      exact List.forall_mem_cons.mpr ⟨hr low high n hf (by simp [hlow]) (by simp [hhigh]),
        ih hys hitems⟩
    · rw [itemValues?] at h
      · obtain ⟨_, hx, h⟩ := Option.bind_eq_some_iff.mp h
        obtain ⟨_, hys, -⟩ := Option.bind_eq_some_iff.mp h
        exact List.forall_mem_cons.mpr ⟨he (by simp [hx]), ih hys hitems⟩
      · exact fun low high n h => hrange ⟨low, high, n, h⟩

/-- An expression that folds to a literal takes no addresses. -/
theorem closes_of_literal {e : Expr} (h : e.fold.literal?.isSome) :
    e.all (closes a) fun _ => true := by
  have hall : (∀ e : Expr, (e.fold.literal?.isSome → e.all (closes a) fun _ => true) ∧
        ∀ low high n, e.fold = .range low high n → low.literal?.isSome → high.literal?.isSome →
          e.all (closes a) fun _ => true) ∧ (∀ _ : Place, True) ∧ ∀ _ : Arg, True := by
    have hsettle : ∀ {e e' : Expr}, e.fold = e'.settle → (∀ low high n, e' ≠ .range low high n) →
        (e'.constant?.isSome → e.all (closes a) fun _ => true) →
        (e.fold.literal?.isSome → e.all (closes a) fun _ => true) ∧
        ∀ low high n, e.fold = .range low high n → low.literal?.isSome → high.literal?.isSome →
          e.all (closes a) fun _ => true := by
      intro e e' he hr hc
      refine ⟨fun h => hc (by rwa [he, literal?_settle] at h), fun low high n hf => ?_⟩
      rw [he] at hf
      unfold settle at hf
      split at hf
      · cases hf
      · exact absurd hf (hr low high n)
    refine Expr.induction ?literal ?place ?array ?range ?address ?unary ?binary ?convert ?format
      ?formatReal ?call (fun _ => trivial) (fun _ _ _ _ => trivial) (fun _ _ _ _ => trivial)
      (fun _ _ => trivial) (fun _ _ => trivial) (fun _ _ => trivial)
    case literal => exact fun v n => ⟨fun _ => rfl, fun _ _ _ h => by cases h⟩
    case place => exact fun p n _ => ⟨fun h => (by cases h), fun _ _ _ h => (by cases h)⟩
    case address => exact fun p n _ => ⟨fun h => (by cases h), fun _ _ _ h => (by cases h)⟩
    case call => exact fun c name args n _ => ⟨fun h => (by cases h), fun _ _ _ h => (by cases h)⟩
    case array =>
      intro lower items n ih
      refine hsettle rfl (by simp) fun hc => ?_
      obtain ⟨v, hv⟩ := Option.isSome_iff_exists.mp hc
      obtain ⟨vs, hvs, -⟩ := Option.bind_eq_some_iff.mp hv
      rw [foldExprs_eq] at hvs
      simpa [Expr.all, closes] using allExprs_iff.mpr (closes_items hvs ih)
    case range =>
      intro low high n ihl ihh
      refine ⟨fun h => (by cases h), ?_⟩
      rintro low' high' n' ⟨⟩ hl hh
      simp [Expr.all, closes, ihl.1 hl, ihh.1 hh]
    case unary =>
      intro op e n ih
      refine hsettle rfl (by simp) fun hc => ?_
      obtain ⟨v, hv⟩ := Option.isSome_iff_exists.mp hc
      obtain ⟨x, hx, -⟩ := Option.bind_eq_some_iff.mp hv
      simp [Expr.all, closes, ih.1 (by simp [hx])]
    case binary =>
      intro op l r n ihl ihr
      refine hsettle rfl (by simp) fun hc => ?_
      obtain ⟨v, hv⟩ := Option.isSome_iff_exists.mp hc
      obtain ⟨x, hx, hv⟩ := Option.bind_eq_some_iff.mp hv
      obtain ⟨y, hy, -⟩ := Option.bind_eq_some_iff.mp hv
      simp [Expr.all, closes, ihl.1 (by simp [hx]), ihr.1 (by simp [hy])]
    case convert =>
      intro c e n ih
      refine hsettle rfl (by simp) fun hc => ?_
      obtain ⟨v, hv⟩ := Option.isSome_iff_exists.mp hc
      obtain ⟨x, hx, -⟩ := Option.bind_eq_some_iff.mp hv
      simp [Expr.all, closes, ih.1 (by simp [hx])]
    case format =>
      intro v w n ihv ihw
      refine hsettle (by rw [Expr.fold]) (by simp) fun hc => ?_
      obtain ⟨u, hu⟩ := Option.isSome_iff_exists.mp hc
      obtain ⟨r, hr, -⟩ := Option.bind_eq_some_iff.mp hu
      obtain ⟨x, y, hx, hy, -⟩ := formatted?_eq_some.mp hr
      simp [Expr.all, closes, ihv.1 (by simp [hx]), ihw.1 (by simp [hy])]
    case formatReal =>
      intro v w p n ihv ihw ihp
      refine hsettle (by rw [Expr.fold]) (by simp) fun hc => ?_
      obtain ⟨u, hu⟩ := Option.isSome_iff_exists.mp hc
      obtain ⟨r, hr, -⟩ := Option.bind_eq_some_iff.mp hu
      obtain ⟨x, y, z, hx, hy, hz, -⟩ := formattedReal?_eq_some.mp hr
      simp [Expr.all, closes, ihv.1 (by simp [hx]), ihw.1 (by simp [hy]), ihp.1 (by simp [hz])]
  exact (hall.1 e).1 h

section Constants

variable {ctx : Context} {e : Expr} (he : e.Built ranges ctx)
  (hs : ctx.arena.Sound d) (hn : ctx.arena.Nested) (hranges : d.takesRanges = false → ranges = false)
include he hs hn hranges

/-- A constant has a value of its type. -/
theorem Built.evaluate_fits {v : Value} {ty : Ty} (h : e.evaluate = .ok (v, ty)) : v.Fits d ty := by
  obtain ⟨n, hf, rfl⟩ := evaluate_eq_ok h
  have htyped := he.exact hs hn (.refl _) hranges fun _ => closes_of_literal (by rw [hf]; rfl)
  have htyped := htyped.typed.fold
  rw [hf] at htyped
  exact ⟨htyped.1, htyped.2.1, htyped.2.2⟩

/-- A constant of an expected type has a value of that type. -/
theorem Built.evaluateAs_fits {v : Value} {ty : Ty} (ht : ty.Tame d) (h : e.evaluateAs ty = .ok v) :
    v.Fits d ty := by
  obtain ⟨e', n, he', hf⟩ := evaluateAs_eq_ok h
  have hcloses : e'.all (closes ctx.arena) fun _ => true := closes_of_literal (by rw [hf]; rfl)
  rw [all_coerce (blind_closes _) he'] at hcloses
  have htyped := he.exact hs hn (.refl _) hranges fun _ => hcloses
  obtain ⟨htyped, hty⟩ := htyped.typed.coerce ht he'
  have htyped := htyped.fold
  have hn := (note_fold e').symm
  rw [hf] at htyped hn
  obtain rfl : n.ty = ty := (congrArg Note.ty hn).symm.trans hty
  exact ⟨htyped.1, htyped.2.1, htyped.2.2⟩

end Constants

end Expr

/-- A variable is declared with a value of its type. -/
theorem Value.Initial.fits {ctx : Context} {t : Ty} {v : Value} (h : v.Initial ranges ctx t)
    (hs : ctx.arena.Sound d) (hn : ctx.arena.Nested)
    (hranges : d.takesRanges = false → ranges = false) (ht : t.Tame d) : v.Fits d t := by
  induction h with
  | evaluated he h => exact he.evaluateAs_fits hs hn hranges ht h
  | @list element bounds items _ h ih =>
    have ih := fun v hv => ih v hv (Ty.Tame.array.mp ht)
    refine ⟨Value.plain_array.mpr fun v hv => (ih v hv).plain, ht, bounds.lower, items, rfl, ?_,
      fun v hv => (ih v hv).type⟩
    split
    · rintro hopen
      rcases h with h | h
      · simp [h] at hopen
      · exact ⟨rfl, h⟩
    · exact fun hopen => by cases hopen

namespace Arena

theorem Sound.empty : Sound d {} where
  entities s key e h := by simp [Arena.scope, default, Scope.entity?, Scope.find?] at h
  functions _ h := by simp at h
  natives _ _ h := by simp at h
  libraries _ h := by simp at h

/-- Declaring more entities. -/
theorem Sound.of_knows (hs : a.Sound d) (hk : a.Knows a') (he : a'.Holds (Entity.Sound d))
    (hf : ∀ id < a'.functions.size, (a'.function id).signature.Tame d ∧
      ∀ q ∈ (a'.function id).signature.params, q.ty.isWritten) : a'.Sound d where
  entities := he
  functions := hf
  natives := hk.natives ▸ hs.natives
  libraries := hk.libraries ▸ hs.libraries

private theorem Sound.declare (hs : a.Sound d) {s : Nat} {name : String} {pos : Position}
    {entity : Entity} (hscope : s < a.scopes.size) (h : a.declare s name pos entity = .ok a')
    (he : entity.Sound d) : a'.Sound d := by
  refine hs.of_knows (.declare h) (hs.entities.declare hscope h he) ?_
  obtain ⟨-, rfl⟩ := declare_eq_ok h
  exact hs.functions

private theorem Sound.header (hs : a.Sound d) (hn : a.Nested) (hh : a.Headed) {s : Nat}
    {name : String} {sig : Signature} {pos : Position} {id : Nat} {a₁ : Arena}
    (hscope : s < a.scopes.size) (hparams : ∀ q ∈ sig.params, q.ty.isWritten)
    (hresult : ∀ ty, sig.result = some ty → ty.isWritten)
    (h : a.declareFunction s name sig pos = .ok (id, a₁)) (h' : a₁.declareParameters id = .ok a')
    (hc : a'.Closed d) : a'.Sound d := by
  have hd := declaresHeader hn hscope h h'
  have hheaded := hd.headed hh id hd.bound
  have hstored : ∀ q ∈ sig.params, q.storedTy = q.ty := by
    intro q hq
    have hg := Ty.isGround_of_isWritten (hparams q hq)
    unfold Parameter.storedTy
    split
    · next he => rw [he] at hg; cases hg
    · rfl
  -- a new routine has the signature of its heading, whose types are those of declared variables
  have hnew : (a'.function id).signature = sig →
      (∀ q ∈ sig.params, q.ty.Tame d) ∧ ∀ ty, sig.result = some ty → ty.Tame d := by
    intro hsig
    rw [UserRoutine.headed, hsig] at hheaded
    refine ⟨fun q hq => ⟨Ty.isGround_of_isWritten (hparams q hq), fun hb => ?_⟩, fun ty hty =>
      ⟨Ty.isGround_of_isWritten (hresult ty hty), fun hb => ?_⟩⟩
    · rw [← hstored q hq]
      exact hc hb _ _ _ (hheaded ⟨q.name, q.storedTy, (a'.function id).pos, none⟩
        (List.mem_append_left _ (List.mem_map.mpr ⟨q, hq, rfl⟩)))
    · exact hc hb _ _ _ (hheaded ⟨resultName, ty, (a'.function id).pos, none⟩
        (List.mem_append_right _ (by simp [hty])))
  have hvars : ∀ v ∈ (a'.function id).headed, (Entity.var v).Sound d := by
    intro v hv
    rcases hd.new id hd.bound with hlt | ⟨-, hsig, -⟩
    · rw [hd.old id hlt] at hv
      exact hs.entities _ _ _ (hh id hlt v hv)
    · obtain ⟨hps, hrs⟩ := hnew hsig
      rw [UserRoutine.headed, hsig] at hv
      rcases List.mem_append.mp hv with hv | hv
      · obtain ⟨q, hq, rfl⟩ := List.mem_map.mp hv
        exact ⟨hstored q hq ▸ hparams q hq, hstored q hq ▸ hps q hq, by simp⟩
      · obtain ⟨ty, hty, rfl⟩ := List.mem_map.mp hv
        have hty : sig.result = some ty := by simpa using hty
        exact ⟨hresult ty hty, hrs ty hty, by simp⟩
  refine hs.of_knows hd.knows (hd.holds _ (fun _ => trivial) hvars hs.entities) fun n hn' => ?_
  rcases hd.new n hn' with hlt | ⟨rfl, hsig, -⟩
  · rw [hd.old n hlt]; exact hs.functions n hlt
  · rw [hsig]
    exact ⟨.of_params (hnew hsig).1 (hnew hsig).2, hparams⟩

private theorem Declares.sound (h : Declares ranges a a') (hs : a.Sound d) (hn : a.Nested)
    (hh : a.Headed) (hranges : d.takesRanges = false → ranges = false)
    (hc : a'.Closed d) : a'.Sound d := by
  cases h with
  | @vars scope names ty initial _ hscope hty hinitial h =>
    rw [declareVariables_eq] at h
    have he := declareEach_eq_ok hscope h
    refine hs.of_knows he.knows (he.holds _ hs.entities fun v hv => ?_) (fun id hid => ?_)
    · have hdeclared := he.declared v hv
      obtain ⟨⟨name, p⟩, -, rfl⟩ := List.mem_map.mp hv
      have ht : ty.Tame d := ⟨Ty.isGround_of_isWritten (hty.isWritten hs), fun hb => hc hb _ _ _ hdeclared⟩
      exact ⟨hty.isWritten hs, ht, fun x hx => (hinitial x hx).fits hs hn hranges ht⟩
    · rw [he.functions] at hid
      rw [Arena.function, he.functions]
      exact hs.functions id hid
  | constant hscope he hvalue h =>
    exact hs.declare hscope h (he.evaluate_fits hs hn hranges hvalue)
  | type hscope hty h => exact hs.declare hscope h (hty.isWritten hs)
  | header hscope hparams hresult h h' =>
    exact hs.header hn hh hscope (fun q hq => (hparams q hq).isWritten hs)
      (fun ty hty => (hresult ty hty).isWritten hs) h h' hc
  | @body id body hid =>
    refine hs.of_knows ⟨rfl, rfl⟩ hs.entities fun n hn' => ?_
    rw [function_modifyFunction]
    rw [Arena.modifyFunction, Array.size_modify] at hn'
    split
    · exact hs.functions n hn'
    · exact hs.functions n hn'

private theorem Extends.sound (h : Extends ranges libraries a a') (hs : a.Sound d) (hn : a.Nested)
    (hh : a.Headed) (hranges : d.takesRanges = false → ranges = false)
    (hl : ∀ l ∈ libraries, l.Fits d) (hc : a'.Closed d) : a'.Sound d := by
  cases h with
  | scope =>
    refine ⟨fun s key e he => ?_, hs.functions, hs.natives, hs.libraries⟩
    rw [scope_push] at he
    split at he
    · simp [Scope.entity?, Scope.find?] at he
    · exact hs.entities s key e he
  | library l hmem =>
    have hfits := hl l hmem
    have ha := addsLibrary (a := a) l
    refine ⟨fun s key e he => ?_, fun id hid => ?_, fun id r hr => ?_, fun known hk => ?_⟩
    · rw [scope_withLibrary] at he
      exact hs.entities s key e he
    · rw [function_withLibrary]
      rw [ha.functions] at hid
      exact hs.functions id hid
    · rw [ha.natives] at hr
      rcases Array.mem_append.mp (Array.mem_of_getElem? hr) with hmem | hmem
      · obtain ⟨i, hi, rfl⟩ := Array.mem_iff_getElem.mp hmem
        exact hs.natives i _ (Array.getElem?_eq_getElem hi)
      · exact hfits.routines r (by simpa using hmem)
    · obtain ⟨new, hlibs, -, -, hcs, hts⟩ := ha.libraries
      rw [hlibs] at hk
      rcases Array.mem_push.mp hk with hk | rfl
      · exact hs.libraries known hk
      · refine ⟨fun c hc => hfits.constants _ _ _ (hcs c hc), fun t ht => ?_⟩
        obtain ⟨name, hmem⟩ := hts t ht
        exact hfits.types name _ hmem
  | importLibrary =>
    exact ⟨fun s key e he => hs.entities s key e (by rwa [entity?_addImport] at he), hs.functions,
      hs.natives, hs.libraries⟩
  | importUnit =>
    exact ⟨fun s key e he => hs.entities s key e (by rwa [entity?_addImport] at he), hs.functions,
      hs.natives, hs.libraries⟩
  | declares h => exact h.sound hs hn hh hranges hc

/-- Whatever a program declares is well-typed if the libraries are. -/
theorem Leads.sound (h : Arena.Leads ranges libraries {} a)
    (hranges : d.takesRanges = false → ranges = false) (hl : ∀ l ∈ libraries, l.Fits d) (hc : a.Closed d) :
    a.Sound d := by
  induction h with
  | refl => exact .empty
  | tail h₁ h ih =>
    have hn := Leads.nested h₁ .empty
    have hh := Leads.headed h₁ .empty .empty
    exact h.sound (ih (hc.of_grows (h.grows hn))) hn hh hranges hl hc

end Arena

/-- Types without pointers to open arrays are allowed where bounds count as well. -/
theorem Ty.Tame.of_closed {t : Ty} (hg : t.isGround) (hp : t.pointsClosed) : t.Tame d :=
  ⟨hg, fun _ => hp⟩

namespace Library

private def allows (t : Ty) : Bool := t.isGround && t.pointsClosed

private theorem tame_of_allows {t : Ty} (h : allows t) : t.Tame d := by
  simp only [allows, Bool.and_eq_true] at h
  exact .of_closed h.1 h.2

/-- The standard libraries are well-typed. -/
theorem standard_fits : ∀ l ∈ standard, l.Fits d := by
  have hroutines : ∀ l ∈ standard, ∀ r ∈ l.routines,
      (∀ p ∈ r.signature.split.1, allows p.ty) ∧
        (∀ f ∈ r.signature.split.2, allows f.1) ∧ ∀ t ∈ r.signature.result, allows t := by
    decide +kernel
  have htypes : ∀ l ∈ standard, ∀ t ∈ l.types, t.2.isWritten := by decide +kernel
  intro l hl
  refine ⟨fun name v ty hv => ?_, fun name ty ht => ?_, fun r hr => ?_⟩
  · simp only [standard, List.mem_cons, List.not_mem_nil, or_false] at hl
    rcases hl with rfl | rfl | rfl
    · simp only [system, List.mem_cons, List.not_mem_nil, or_false] at hv
      rcases hv with hv | hv <;> cases hv <;> exact ⟨rfl, .basic _, rfl⟩
    · cases hv
    · cases hv
  · exact htypes l hl _ ht
  · obtain ⟨hp, hf, ht⟩ := hroutines l hl r hr
    exact ⟨fun p hp' => tame_of_allows (hp p hp'), fun ty mode h => tame_of_allows (hf (ty, mode) h),
      fun ty h => tame_of_allows (ht ty h)⟩

end Library

end Pascal
