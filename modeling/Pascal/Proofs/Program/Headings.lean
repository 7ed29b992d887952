import Pascal.Proofs.Formula.Parsed
import Pascal.Proofs.Frames.Arguments
import Pascal.Proofs.Program.Session
import Pascal.Proofs.Scope.Bare

/-!
# Headings of one routine

A routine may have a heading before the one that carries its body. The first heading declares the parameters,
and a further one declares nothing, so that the body sees the names that the first heading has written. Main
statement: where the heading with the body writes the same name for a parameter as the first one, this name
denotes in the body the slot that a call binds to the argument of this position.
-/

namespace Pascal

namespace Arena

variable {a a' : Arena} {s id : Nat} {vs : List Variable} {v : Variable} {ranges : Bool}
  {libraries : List Library}

/-! ### The names of a heading are different ones -/

/-- What is declared one by one was not declared before. -/
theorem declareEach_undeclared (hs : s < a.scopes.size) (h : a.declareEach s vs = .ok a') :
    ∀ v ∈ vs, (a.scope s).entity? (Text.lower v.name) = none := by
  induction vs generalizing a with
  | nil => simp
  | cons v vs ih =>
    obtain ⟨a₁, hv, hrest⟩ := declareEach_cons h
    have hfirst : (a.scope s).entity? (Text.lower v.name) = none := by
      simp [Scope.entity?, (declare_eq_ok hv).1]
    refine List.forall_mem_cons.mpr ⟨hfirst, fun x hx => ?_⟩
    have hrest := ih (by rwa [size_declare hv]) hrest x hx
    rw [entity?_declare hs hv] at hrest
    split at hrest
    · cases hrest
    · exact hrest

theorem declareEach_nodup (hs : s < a.scopes.size) (h : a.declareEach s vs = .ok a') :
    (vs.map fun v => Text.lower v.name).Nodup := by
  induction vs generalizing a with
  | nil => exact List.nodup_nil
  | cons v vs ih =>
    obtain ⟨a₁, hv, hrest⟩ := declareEach_cons h
    have hs₁ : s < a₁.scopes.size := by rwa [size_declare hv]
    refine List.nodup_cons.mpr ⟨?_, ih hs₁ hrest⟩
    rw [List.mem_map]
    rintro ⟨x, hx, hname⟩
    have hnone := declareEach_undeclared hs₁ hrest x hx
    rw [entity?_declare hs hv, if_pos ⟨rfl, hname⟩] at hnone
    cases hnone

/-- The variables that the heading of each routine declares have different names. -/
def Distinct (a : Arena) : Prop :=
  ∀ id < a.functions.size, ((a.function id).headed.map fun v => Text.lower v.name).Nodup

theorem Distinct.empty : Distinct {} := fun _ h => by simp at h

theorem Distinct.grow (h : a.Distinct) (hg : a.Grows a')
    (hsize : a'.functions.size = a.functions.size) : a'.Distinct := by
  intro id hid
  rw [hsize] at hid
  rw [hg.headed_eq hid]
  exact h id hid

/-- A heading declares its variables in a scope that is still empty. -/
theorem Distinct.header (h : a.Distinct) (hn : a.Nested) (hs : s < a.scopes.size) {name : String}
    {sig : Signature} {p : Position} {a₁ : Arena}
    (hd : a.declareFunction s name sig p = .ok (id, a₁)) (hp : a₁.declareParameters id = .ok a') :
    a'.Distinct := by
  have hr := declaresRoutine hn hs hd
  have hheader := declaresHeader hn hs hd hp
  intro n hlt
  rcases hheader.new n hlt with hold | ⟨rfl, -⟩
  · rw [hheader.grows.headed_eq hold]
    exact h n hold
  · rcases declareParameters_eq_ok hp with ⟨hvars, rfl⟩ | hp
    · rcases hr.new n hlt with hold | ⟨-, -, -, hempty⟩
      · rw [hheader.grows.headed_eq hold]
        exact h n hold
      · exact absurd (vars_eq_nil hempty) hvars
    · have hown := (hr.nested.own n hr.bound).1
      rw [(declareEach_eq_ok hown hp).grows.headed_eq hr.bound]
      exact declareEach_nodup hown hp

theorem Declares.distinct (hd : a.Distinct) (hn : a.Nested) (h : Declares ranges a a') :
    a'.Distinct := by
  have hg := (h.kept hn).grows
  cases h with
  | vars hs _ _ h =>
    rw [declareVariables_eq] at h
    exact hd.grow hg (congrArg Array.size (declareEach_eq_ok hs h).functions)
  | constant _ _ _ h =>
    obtain ⟨-, rfl⟩ := declare_eq_ok h
    exact hd.grow hg rfl
  | type _ _ h =>
    obtain ⟨-, rfl⟩ := declare_eq_ok h
    exact hd.grow hg rfl
  | header hs _ _ h h' => exact hd.header hn hs h h'
  | body => exact hd.grow hg (by simp [Arena.modifyFunction])

theorem Extends.distinct (hd : a.Distinct) (hn : a.Nested) (h : Extends ranges libraries a a') :
    a'.Distinct := by
  have hg := h.grows hn
  cases h with
  | scope => exact hd.grow hg rfl
  | library l => exact hd.grow hg (congrArg Array.size (addsLibrary l).functions)
  | importLibrary => exact hd.grow hg rfl
  | importUnit => exact hd.grow hg rfl
  | declares h => exact h.distinct hd hn

theorem Leads.distinct (h : Leads ranges libraries a a') (hn : a.Nested) (hd : a.Distinct) :
    a'.Distinct := by
  induction h with
  | refl => exact hd
  | tail h₁ h ih => exact h.distinct ih (Leads.nested h₁ hn)

/-! ### A further heading -/

/-- A heading that denotes an earlier routine changes nothing, and this routine has no body yet. -/
theorem declareFunction_again {name : String} {sig : Signature} {p : Position}
    (hid : id < a.functions.size) (h : a.declareFunction s name sig p = .ok (id, a')) :
    a' = a ∧ (a.function id).body = none ∧ (a.function id).signature.sameParameters sig := by
  unfold declareFunction at h
  dsimp only at h
  split at h
  · cases h
  split at h
  · obtain ⟨a₁, -, h⟩ := bind_eq_ok.mp h
    cases h
    exact absurd hid (lt_irrefl _)
  · split at h
    · next id' hfound =>
      split at h
      · cases h
      next hbody =>
      split at h
      · cases h
      · cases h
        have hsame := List.find?_some hfound
        exact ⟨rfl, by simpa using hbody, hsame⟩
    · cases h
      exact absurd hid (lt_irrefl _)
  · cases h

/-- Where the heading of a routine has been declared, nothing more is declared. -/
theorem declareParameters_again (hn : a.Nested) (hh : a.Headed) (hid : id < a.functions.size)
    (h : a.declareParameters id = .ok a') : a' = a := by
  rcases declareParameters_eq_ok h with ⟨-, h⟩ | h
  · exact h
  · cases hvs : (a.function id).headed with
    | nil =>
      rw [hvs] at h
      cases h
      rfl
    | cons v vs =>
      have hmem : v ∈ (a.function id).headed := hvs ▸ List.mem_cons_self
      have hnone := declareEach_undeclared (hn.own id hid).1 h v hmem
      rw [hh id hid v hmem] at hnone
      cases hnone

/-! ### What the name of a parameter denotes -/

/-- The code of a scope stands in another scope, and nothing nearer has a name. -/
def Reaches (a : Arena) (s own : Nat) (key : String) : Prop :=
  ∃ inner outer, a.chain s = inner ++ own :: outer ∧ ∀ t ∈ inner, a.meaningsAt key t = []

theorem lookup?_reached {own : Nat} {name : String} (h : a.Reaches s own (Text.lower name))
    (hv : (a.scope own).entity? (Text.lower name) = some (.var v)) :
    a.lookup? s name = some (.var ⟨own, Text.lower name⟩ v.ty) := by
  obtain ⟨inner, outer, hchain, hinner⟩ := h
  have hmeanings : a.meanings s (Text.lower name) =
      (inner ++ own :: outer).flatMap (a.meaningsAt (Text.lower name)) := by
    rw [← hchain]
    rfl
  have hdeclared : a.declaredMeaning? own (Text.lower name) =
      some (.var ⟨own, Text.lower name⟩ v.ty) := by simp [declaredMeaning?, hv]
  rw [lookup?, hmeanings, List.flatMap_append, List.flatMap_eq_nil_iff.mpr hinner, List.nil_append,
    List.flatMap_cons, meaningsAt, hdeclared]
  rfl

/-- In the body of a routine a name denotes the slot that calls bind to the argument of a position. -/
structure Binds (libraries : List Library) (a : Arena) (id : Nat) (name : String) (i : Nat) : Prop where
  /-- However the program goes on, this is what a look-up gives where nothing nearer has the name. -/
  denotes : ∀ a' s, Leads true libraries a a' →
    a'.Reaches s (a.function id).scope (Text.lower name) →
      ∃ p, (a.function id).signature.params[i]? = some p ∧
        a'.lookup? s name = some (.var ⟨(a.function id).scope, Text.lower name⟩ p.storedTy)
  /-- A call makes a frame where this variable is bound to the argument. -/
  bound : ∀ (env : Env) args arg w, Leads true libraries a env.program.arena → args[i]? = some arg →
    ∀ f, f = env.program.arena.function id → ∀ frame w',
      f.newFrame (env.program.arena.scope f.scope).vars args w = (frame, w') →
      ∃ r, arg.BoundTo w w' r ∧ ∀ inner outer, (∀ g ∈ inner, g.scope ≠ frame.scope) →
        env.variableRef (inner ++ frame :: outer) ⟨(a.function id).scope, Text.lower name⟩ = .ok r

theorem binds_parameter (ha : Leads true libraries {} a) (hid : id < a.functions.size) {p : Parameter}
    {i : Nat} (hp : (a.function id).signature.params[i]? = some p) {name : String}
    (hname : Text.lower name = Text.lower p.name) : a.Binds libraries id name i := by
  have hn := Leads.nested ha .empty
  have hh := Leads.headed ha .empty .empty
  have hd := Leads.distinct ha .empty .empty
  constructor
  · intro a' s ha' hreaches
    have hv := hh id hid ⟨p.name, p.storedTy, (a.function id).pos, none⟩
      (List.mem_append_left _ (List.mem_map.mpr ⟨p, List.mem_of_getElem? hp, rfl⟩))
    rw [← hname] at hv
    exact ⟨p, hp, lookup?_reached hreaches ((ha'.grows hn).var hv)⟩
  · rintro env args arg w ha' harg f rfl frame w' hframe
    have hg := ha'.grows hn
    have hnames := hd id hid
    rw [UserRoutine.headed, List.map_append, List.map_map] at hnames
    rw [← hg.signature hid] at hnames hp
    obtain ⟨r, hr, hbound⟩ := UserRoutine.newFrame_slot? hnames.of_append_left hp harg
      (env.program.arena.scope (env.program.arena.function id).scope).vars w
    rw [hframe, ← hname] at hr
    rw [hframe] at hbound
    have hscope : frame.scope = (a.function id).scope := by
      rw [← hg.ownScope hid]
      exact (congrArg (fun x => x.1.scope) hframe).symm
    refine ⟨r, hbound, fun inner outer hinner => ?_⟩
    rw [← hscope]
    exact env.variableRef_of_slot? hinner hr

end Arena

namespace Parser

variable {declarations : Nat → Arena → Parser Arena} {scope : Nat} {part : Section} {a a' : Arena}
  {c c' : Cursor}

theorem checkScope_eq_ok {α : Type} {r : Except ScopeError α} {x : α} :
    checkScope r c = .ok (x, c') ↔ r = .ok x ∧ c' = c := by
  rw [checkScope, check_eq_ok]
  cases r <;> simp [Except.mapError]

/-- How a routine is read: its heading, and then perhaps its body in its own scope. -/
theorem routine_eq_ok (h : routine declarations scope part a c = .ok (a', c')) :
    ∃ name sig p c₁ id a₁ a₂, header { arena := a, scope } c = .ok ((name, sig, p), c₁) ∧
      a.declareFunction scope name sig p = .ok (id, a₁) ∧ a₁.declareParameters id = .ok a₂ ∧
      (a' = a₂ ∨ ∃ c₂ b c₃ g c₄ body c₅,
        declarations (a₂.function id).scope a₂ c₂ = .ok (b, c₃) ∧
        block (statement { arena := b, scope := (a₂.function id).scope }) g c₄ = .ok (body, c₅) ∧
        a' = b.modifyFunction id fun f => { f with body := some body }) := by
  obtain ⟨⟨name, sig, p⟩, c₁, hheader, h⟩ := bind_eq_ok_iff.mp h
  obtain ⟨⟨id, a₁⟩, c₂, hfunction, h⟩ := bind_eq_ok_iff.mp h
  obtain ⟨a₂, c₃, hparameters, h⟩ := bind_eq_ok_iff.mp h
  have hf := (checkScope_eq_ok.mp hfunction).1
  have hp := (checkScope_eq_ok.mp hparameters).1
  refine ⟨name, sig, p, c₁, id, a₁, a₂, hheader, hf, hp, ?_⟩
  obtain ⟨forward, c₄, -, h⟩ := bind_eq_ok_iff.mp h
  cases forward with
  | true =>
    obtain ⟨_, c₅, -, h⟩ := bind_eq_ok_iff.mp h
    cases h
    exact .inl rfl
  | false =>
    rw [if_neg Bool.false_ne_true] at h
    split at h
    · cases h
      exact .inl rfl
    obtain ⟨b, c₅, hb, h⟩ := bind_eq_ok_iff.mp h
    obtain ⟨g, c₆, -, h⟩ := bind_eq_ok_iff.mp h
    obtain ⟨body, c₇, hbody, h⟩ := bind_eq_ok_iff.mp h
    obtain ⟨_, c₈, -, h⟩ := bind_eq_ok_iff.mp h
    cases h
    exact .inr ⟨_, b, _, g, _, body, _, hb, hbody, rfl⟩

variable {libraries : List Library} {name : String} {sig : Signature} {p : Position} {c₁ : Cursor}
  {id depth : Nat} {a₁ : Arena} {body : Stmt}

/-- The heading that carries the body of a routine with an earlier heading declares nothing: the body is read in
the scope of the first heading, behind the declarations in front of it. So a parameter is known by the name that
the first heading has for it. Where the heading with the body writes this name as well, the name denotes in the
body the slot of the argument of this position. -/
theorem routine_binds (ha : Arena.Leads true libraries {} a) (hscope : scope < a.scopes.size)
    (hheader : header { arena := a, scope } c = .ok ((name, sig, p), c₁))
    (hf : a.declareFunction scope name sig p = .ok (id, a₁)) (hid : id < a.functions.size)
    (h : routine (fun own => declarationsWithin depth own .definitions) scope part a c = .ok (a', c'))
    (hbody : (a'.function id).body = some body) :
    (∃ b g c₂ c₃, Arena.DeclaresAll true a b ∧
      block (statement { arena := b, scope := (a.function id).scope }) g c₂ = .ok (body, c₃)) ∧
    ∀ i q, sig.params[i]? = some q → ∃ q₀, (a.function id).signature.params[i]? = some q₀ ∧
      (Text.lower q.name = Text.lower q₀.name → a.Binds libraries id q.name i) := by
  have hn := Arena.Leads.nested ha .empty
  have hh := Arena.Leads.headed ha .empty .empty
  obtain ⟨hsame, hnobody, hparams⟩ := Arena.declareFunction_again hid hf
  constructor
  · obtain ⟨name', sig', p', c₂, id', a₁', a₂, hheader', hf', hp, hread⟩ := routine_eq_ok h
    rw [hheader] at hheader'
    cases hheader'
    rw [hf] at hf'
    cases hf'
    rw [hsame] at hp
    have hagain : a = a₂ := (Arena.declareParameters_again hn hh hid hp).symm
    subst hagain
    rcases hread with rfl | ⟨c₂, b, c₃, g, c₄, body', c₅, hb, hblock, rfl⟩
    · rw [hnobody] at hbody
      cases hbody
    have hown := (hn.own id hid).1
    have hdeclares : Arena.DeclaresAll true a b :=
      (Declares.declarationsWithin depth _ (Cursor.guard_fair true) _ hn hown (Cursor.fair_true c₂) hb).1
    have hlt : id < b.functions.size := hid.trans_le (hdeclares.kept hn).grows.functions
    rw [Arena.function_modifyFunction, if_pos ⟨rfl, hlt⟩] at hbody
    cases hbody
    exact ⟨b, g, c₄, c₅, hdeclares, hblock⟩
  · intro i q hq
    have hlength : (a.function id).signature.params.length = sig.params.length := by
      simp only [Signature.sameParameters, Bool.and_eq_true, beq_iff_eq] at hparams
      exact hparams.1
    obtain ⟨hi, -⟩ := List.getElem?_eq_some_iff.mp hq
    have hq₀ := List.getElem?_eq_getElem (hlength ▸ hi)
    exact ⟨_, hq₀, fun hname => Arena.binds_parameter ha hid hq₀ hname⟩

private def word (k : Token.Kind) : Item := .token ⟨k, default⟩

private def closing : Token := ⟨.eof, default⟩

/-- A program with a variable and the first heading of a function. -/
private def doublingSteps : List Operation :=
  [.push .program "test" none, .declareVariable 0 ⟨"y", .integer, default, none⟩,
    .declareFunction 0 "double" ⟨[⟨"x", .integer, .value⟩], some .integer⟩ default,
    .declareVariable 1 ⟨"x", .integer, default, none⟩,
    .declareVariable 1 ⟨resultName, .integer, default, none⟩]

private def doubling (n : Nat) : Arena := (doublingSteps.take n).foldl Arena.afterOperation {}

private theorem leads_doubling : Arena.Leads true [] {} (doubling 5) := by
  have hscope : Arena.Extends true [] {} (doubling 1) := .scope (.inl rfl)
  have hvar : Arena.Extends true [] (doubling 1) (doubling 2) :=
    .declares (@Arena.Declares.vars true _ 0 [("y", default)] .integer none _ (by decide)
      (.builtin (by rfl : Ty.builtin? "integer" = some .integer)) (by rintro v ⟨⟩) (by rfl))
  have hheader : Arena.Extends true [] (doubling 2) (doubling 5) :=
    .declares (@Arena.Declares.header true _ 0 "double" ⟨[⟨"x", .integer, .value⟩], some .integer⟩ default
      0 (doubling 3) _ (by decide) (by
        intro q hq
        obtain rfl := List.mem_singleton.mp hq
        exact .builtin (by rfl : Ty.builtin? "integer" = some .integer)) (by
        rintro ty ⟨⟩
        exact .builtin (by rfl : Ty.builtin? "integer" = some .integer)) (by rfl) (by rfl))
  exact .tail (.tail (.single hscope) hvar) hheader

/-- A heading with a name for the parameter, and a body that reads this name. -/
private def doublingBy (x : String) : Cursor :=
  ⟨[word (.keyword .function), word (.identifier "double"),
    .group .paren closing closing [word (.identifier x), word (.symbol .colon), word (.identifier "integer")],
    word (.symbol .colon), word (.identifier "integer"), word (.symbol .semicolon),
    .group .begin_ closing closing [word (.identifier "double"), word (.symbol .assign),
      word (.identifier x), word (.symbol .plus), word (.identifier x)],
    word (.symbol .semicolon)], closing⟩

/-- What is read of the heading with the body. -/
private def doublingSignature (x : String) : Signature := ⟨[⟨x, .integer, .value⟩], some .integer⟩

/-- The second heading has the name of the first one, in another case. -/
theorem routine_binds_doubling :
    ∃ a' c' c₁ body, header { arena := doubling 5, scope := 0 } (doublingBy "X") =
        .ok (("double", doublingSignature "X", default), c₁) ∧
      (doubling 5).declareFunction 0 "double" (doublingSignature "X") default = .ok (0, doubling 5) ∧
      routine (fun own => declarationsWithin 1 own .definitions) 0 .definitions (doubling 5)
        (doublingBy "X") = .ok (a', c') ∧ (a'.function 0).body = some body ∧
      (∃ b g c₂ c₃, Arena.DeclaresAll true (doubling 5) b ∧
        block (statement { arena := b, scope := 1 }) g c₂ = .ok (body, c₃)) ∧
      (doubling 5).Binds [] 0 "X" 0 := by
  have hread : ∃ a' c' c₁ body, header { arena := doubling 5, scope := 0 } (doublingBy "X") =
        .ok (("double", doublingSignature "X", default), c₁) ∧
      routine (fun own => declarationsWithin 1 own .definitions) 0 .definitions (doubling 5)
        (doublingBy "X") = .ok (a', c') ∧ (a'.function 0).body = some body :=
    ⟨_, _, _, _, by rfl, by rfl, by rfl⟩
  obtain ⟨a', c', c₁, body, hheader, h, hbody⟩ := hread
  have hf : (doubling 5).declareFunction 0 "double" (doublingSignature "X") default =
      .ok (0, doubling 5) := by rfl
  obtain ⟨hblock, hparams⟩ := routine_binds leads_doubling (by decide) hheader hf (by decide) h hbody
  obtain ⟨q, hq, hbinds⟩ := hparams 0 ⟨"X", .integer, .value⟩ rfl
  cases hq
  exact ⟨a', c', c₁, body, hheader, hf, h, hbody, hblock, hbinds (by decide +kernel)⟩

/-- The second heading has another name: in the body, this name is a variable outside of the function. -/
theorem routine_binds_renamed :
    ∃ a' c' c₁ body, header { arena := doubling 5, scope := 0 } (doublingBy "y") =
        .ok (("double", doublingSignature "y", default), c₁) ∧
      (doubling 5).declareFunction 0 "double" (doublingSignature "y") default = .ok (0, doubling 5) ∧
      routine (fun own => declarationsWithin 1 own .definitions) 0 .definitions (doubling 5)
        (doublingBy "y") = .ok (a', c') ∧ (a'.function 0).body = some body ∧
      a'.lookup? 1 "y" = some (.var ⟨0, "y"⟩ .integer) ∧ ¬ (doubling 5).Binds [] 0 "y" 0 := by
  refine ⟨_, _, _, _, by rfl, by rfl, by rfl, by rfl, by rfl, fun hbinds => ?_⟩
  obtain ⟨p, -, hlookup⟩ := hbinds.denotes (doubling 5) 1 .refl ⟨[], [0], by rfl, by simp⟩
  have houter : (doubling 5).lookup? 1 "y" = some (.var ⟨0, "y"⟩ .integer) := by rfl
  rw [houter] at hlookup
  cases hlookup

end Parser

end Pascal
