import Pascal.Library.Standard
import Pascal.Proofs.Sound.Library

/-! # The routines of the standard libraries on typed storage -/

namespace Pascal

variable {d : Discipline} {cells : List Ty}

theorem Ty.Seen.eq {bounds : Bool} {t t' : Ty} (h : t.Seen bounds t') (hc : t'.isClosed) : t = t' :=
  h.opens.eq hc

namespace Library

open Host (Sound)

variable {s : Signature} {args : List Value} {name : String} {t : Ty} {i : Nat}

theorem procedure_sound {params : List Parameter} {run : List Value → Host Unit}
    (h : ∀ cells args, Signature.Admits d cells ⟨params, none⟩ args →
      Sound d cells (run args) fun _ => True) : (procedure name params run).Sound d :=
  fun cells args hargs => (h cells args hargs).bind fun _ _ => .pure fun _ ht => by cases ht

theorem function_sound {params : List Parameter} {result : Ty} {run : List Value → Host Value}
    (h : ∀ cells args, Signature.Admits d cells ⟨params, some result⟩ args →
      Sound d cells (run args) (Value.HasType cells (result.outline d.bounds))) :
    (function name params result run).Sound d :=
  fun cells args hargs => (h cells args hargs).bind fun v hv => .pure fun _ ht => by
    cases ht
    exact ⟨v, rfl, hv⟩

/-! ## Arguments -/

theorem arg_sound {Q : Value → Prop} (h : ∀ v, args[i]? = some v → Q v) :
    Sound d cells (arg args i) Q := by
  unfold arg
  split
  · next v hv => exact .pure (h v hv)
  · exact .throw fun _ he => by cases he

section Values

variable (h : s.Admits d cells args) {n : String}
include h

theorem arg_hasType (hp : s.split.1[i]? = some (param n t)) :
    Sound d cells (arg args i) (Value.HasType cells (t.outline d.bounds)) :=
  arg_sound fun _ hv => h.value hp (by simp [param]) hv

theorem ordinalArg_sound {b : Basic} (hp : s.split.1[i]? = some (param n (.basic b)))
    (hb : (Ty.basic b).isOrdinal) : Sound d cells (ordinalArg args i) fun _ => True :=
  (arg_hasType h hp).bind fun v hv => by
    obtain ⟨x, hx⟩ := Value.asOrdinal_of_basic hv hb
    exact .liftFault (.of_eq hx trivial)

theorem realArg_sound (hp : s.split.1[i]? = some (param n .double)) :
    Sound d cells (realArg args i) fun _ => True :=
  (arg_hasType h hp).bind fun v hv => by
    obtain ⟨x, rfl⟩ := Value.eq_double hv
    exact .pure trivial

theorem stringArg_sound (hp : s.split.1[i]? = some (param n .string)) :
    Sound d cells (stringArg args i) fun _ => True :=
  (arg_hasType h hp).bind fun v hv => by
    obtain ⟨x, rfl⟩ := Value.eq_string hv
    exact .pure trivial

theorem fileArg_sound (hp : s.split.1[i]? = some (param n .text)) :
    Sound d cells (fileArg args i) fun _ => True :=
  (arg_hasType h hp).bind fun v hv => by
    obtain ⟨file, rfl⟩ := hv
    exact .pure trivial

theorem arrayArg_sound {r : Subrange} (hp : s.split.1[0]? = some (param n (.array t r))) :
    Sound d cells (arrayArg args) fun _ => True :=
  (arg_hasType h hp).bind fun v hv => by
    obtain ⟨lower, items, rfl, -, -⟩ := hv
    exact .pure trivial

end Values

theorem refArg_sound (h : ∀ v, args[i]? = some v → ∃ r u, v = .pointer (some r) ∧ r.HasType cells u ∧
      (t = .any ∨ u.Seen d.bounds (t.outline d.bounds))) :
    Sound d cells (refArg args i) fun r => ∃ u, r.HasType cells u ∧
      (t = .any ∨ u.Seen d.bounds (t.outline d.bounds)) :=
  (arg_sound h).bind fun v hv => by
    obtain ⟨r, u, rfl, hu⟩ := hv
    exact .pure ⟨u, hu⟩

theorem refArgs_sound (h : ∀ v ∈ args, ∃ r u, v = .pointer (some r) ∧ r.HasType cells u) :
    Sound d cells (refArgs args) fun rs => ∀ r ∈ rs, ∃ u, r.HasType cells u := by
  refine Sound.mapM fun i _ => (refArg_sound (t := .any) fun v hv => ?_).mono fun r ⟨u, hu, _⟩ =>
    ⟨u, hu⟩
  obtain ⟨r, u, hr, hu⟩ := h v (List.mem_of_getElem? hv)
  exact ⟨r, u, hr, hu, .inl rfl⟩

theorem renderAll_sound (args : List Value) : Sound d cells (renderAll args) fun _ => True :=
  (Sound.mapM fun v _ => Sound.render v).bind fun _ _ => .pure trivial

/-! ## Results -/

theorem integerResult_sound (n : Int) :
    Sound d cells (integerResult n) (Value.HasType cells .integer) := by
  unfold integerResult
  split
  · next hv => exact .pure (Value.basic_of_integer? hv)
  · exact .fail trivial

theorem wholeResult_sound (round : Float → Int) (x : Float) :
    Sound d cells (wholeResult round x) (Value.HasType cells .integer) := by
  unfold wholeResult
  split
  · exact .fail trivial
  · split
    · next hv => exact .pure (Value.basic_of_integer? hv)
    · exact .fail trivial

theorem orOverflow_integer (operation : String) (n : Int) :
    Sound d cells (orOverflow operation (Value.integer? n)) (Value.HasType cells .integer) := by
  unfold orOverflow
  split
  · next hv => exact .pure (Value.basic_of_integer? hv)
  · exact .fail trivial

theorem orOverflow_long (operation : String) (n : Int) :
    Sound d cells (orOverflow operation (Value.long? n)) (Value.HasType cells .long) := by
  unfold orOverflow
  split
  · next hv => exact .pure (Value.basic_of_long? hv)
  · exact .fail trivial

section Reading

open Reader (foreign_word foreign_rest foreign_char foreign_finishLine foreign_atEnd)

variable {source : Source}
  (hs : ∀ {α : Type} {read : Reader.Read α}, Reader.Foreign read →
    Sound d cells (source α read) fun _ => True)
include hs

theorem fromWord_sound {expected : String} {parse : String → Option Value} {b : Basic}
    (h : ∀ w v, parse w = some v → v.basic? = some b) :
    Sound d cells (fromWord source expected parse) (·.basic? = some b) :=
  (hs foreign_word).bind fun w _ => by
    split
    · next hv => exact .pure (h w _ hv)
    · exact .fail trivial

/-- What is read for a variable is of the basic type of its old value. -/
theorem readLike_sound (old : Value) :
    Sound d cells (readLike source old) fun v => ∃ b, old.basic? = some b ∧ v.basic? = some b := by
  have hword : ∀ {expected : String} {parse : String → Option Value} {b : Basic},
      old.basic? = some b → (∀ w v, parse w = some v → v.basic? = some b) →
      Sound d cells (fromWord source expected parse) fun v =>
        ∃ b, old.basic? = some b ∧ v.basic? = some b :=
    fun hold h => (fromWord_sound hs h).mono fun _ hv => ⟨_, hold, hv⟩
  cases old with
  | string => exact (hs foreign_rest).bind fun _ _ => .pure ⟨_, rfl, rfl⟩
  | char => exact (hs foreign_char).bind fun _ _ => .pure ⟨_, rfl, rfl⟩
  | integer =>
    refine hword rfl fun w v hv => ?_
    obtain ⟨_, -, hv⟩ := Option.bind_eq_some_iff.mp hv
    exact Value.basic_of_integer? hv
  | long =>
    refine hword rfl fun w v hv => ?_
    obtain ⟨_, -, hv⟩ := Option.bind_eq_some_iff.mp hv
    exact Value.basic_of_long? hv
  | double =>
    refine hword rfl fun w v hv => ?_
    obtain ⟨_, -, rfl⟩ := Option.map_eq_some_iff.mp hv
    rfl
  | boolean =>
    refine hword rfl fun w v hv => ?_
    unfold boolean? at hv
    split at hv
    · cases hv; rfl
    · split at hv <;> cases hv
      rfl
  | array | pointer | text => exact .fail (.inr (.inl ⟨rfl, by simp [Value.typeName]⟩))

theorem readValues_sound {targets : List Ref} (ht : ∀ r ∈ targets, ∃ u, r.HasType cells u)
    (line : Bool) : Sound d cells (readValues source targets line) fun _ => True := by
  have hend : Sound d cells (do if line then source _ Reader.finishLine) fun _ => True := by
    split
    · exact hs foreign_finishLine
    · exact .pure trivial
  unfold readValues
  refine Sound.bind (P := fun _ => True) ?_ fun _ _ => hend
  induction targets with
  | nil => exact .pure trivial
  | cons target targets ih =>
    obtain ⟨⟨u, hu⟩, hrest⟩ := List.forall_mem_cons.mp ht
    rw [List.forIn_cons]
    refine Sound.bind (P := fun next => ∃ x, next = .yield x) ?_ fun next hnext => ?_
    · refine (Sound.get hu).bind fun old hold => (readLike_sound hs old).bind fun v hv => ?_
      obtain ⟨b, hb, hv⟩ := hv
      exact (Sound.set hu (hold.of_basic hb hv)).bind fun _ _ => .pure ⟨_, rfl⟩
    · obtain ⟨x, rfl⟩ := hnext
      exact ih hrest

end Reading

theorem console_sound {α : Type} {read : Reader.Read α} (h : Reader.Foreign read) :
    Sound d cells (console α read) fun _ => True := .onConsole h

theorem textFile_sound (n : Nat) {α : Type} {read : Reader.Read α} (h : Reader.Foreign read) :
    Sound d cells (textFile n α read) fun _ => True := .fromFile n h

/-! ## The libraries -/

theorem inputOutput_sound : ∀ r ∈ inputOutput, r.Sound d := by
  have hwrite : ∀ name ending, (procedure name [param "args" anyArgs] (writeTo ending)).Sound d :=
    fun name ending => procedure_sound fun cells args _ =>
      (renderAll_sound args).bind fun _ _ => .write _
  have hwriteFile : ∀ name ending, (procedure name [fileParam, param "args" anyArgs]
      (writeToFile ending)).Sound d := fun name ending => procedure_sound fun cells args h =>
    (renderAll_sound _).bind fun _ _ => (fileArg_sound (i := 0) h rfl).bind fun _ _ =>
      .onFile _ fun f disk => f.foreign_write _ disk
  have hread : ∀ name line, (procedure name [varParam "args" anyArgs] (readFrom line)).Sound d :=
    fun name line => procedure_sound fun cells args h =>
      (refArgs_sound fun v hv => h.further (t := .any) rfl hv).bind fun _ ht =>
        readValues_sound console_sound ht line
  have hreadFile : ∀ name line, (procedure name [fileParam, varParam "args" anyArgs]
      (readFromFile line)).Sound d := fun name line => procedure_sound fun cells args h =>
    (refArgs_sound fun v hv => h.further (t := .any) rfl hv).bind fun _ ht =>
      (fileArg_sound (i := 0) h rfl).bind fun n _ =>
        (Sound.fromFile n (Reader.foreign_pure ())).bind fun _ _ =>
          readValues_sound (textFile_sound n) ht line
  have hchange : ∀ name change, (∀ f disk, Pascal.Foreign (change f disk)) →
      (procedure name [fileParam] (onFileArg change)).Sound d := fun name change hc =>
    procedure_sound fun cells args h => (fileArg_sound (i := 0) h rfl).bind fun _ _ => .onFile _ hc
  simp only [inputOutput, List.forall_mem_cons, List.not_mem_nil, false_imp_iff, implies_true,
    and_true]
  exact ⟨hwrite _ _, hwrite _ _, hwriteFile _ _, hwriteFile _ _, hread _ _, hread _ _,
    hreadFile _ _, hreadFile _ _,
    function_sound fun _ _ _ => (Sound.onConsole Reader.foreign_atEnd).bind fun _ _ => .pure rfl,
    function_sound fun _ _ h => (fileArg_sound (i := 0) h rfl).bind fun _ _ =>
      (Sound.fromFile _ Reader.foreign_atEnd).bind fun _ _ => .pure rfl,
    procedure_sound fun _ _ h => (stringArg_sound (i := 1) h rfl).bind fun _ _ =>
      (fileArg_sound (i := 0) h rfl).bind fun _ _ => .onFile _ fun _ _ => .ok _,
    hchange _ _ TextFile.foreign_startOver, hchange _ _ TextFile.foreign_reset,
    hchange _ _ TextFile.foreign_append, hchange _ _ TextFile.foreign_close⟩

theorem shifted_gives {v : Value} {b : Basic} (h : v.basic? = some b) (hb : (Ty.basic b).isOrdinal)
    (delta : Int) : Gives (shifted v delta) (·.basic? = some b) := by
  obtain ⟨n, hn⟩ := Value.asOrdinal_of_basic h hb
  unfold shifted
  rw [hn]
  exact Value.withOrdinal_gives h hb _

/-- A step moves a variable of an ordinal type on, by an ordinal amount if one is passed. -/
theorem stepInPlace_sound {sign : Int} {b : Basic} (hb : (Ty.basic b).isOrdinal)
    (hvar : ∀ v, args[0]? = some v → ∃ r u, v = .pointer (some r) ∧ r.HasType cells u ∧
      (Ty.basic b = .any ∨ u.Seen d.bounds (.basic b)))
    (hamount : ∀ v, args[1]? = some v → ∃ n, v.asOrdinal = .ok n) :
    Sound d cells (stepInPlace sign args) fun _ => True := by
  have hstep : ∀ amount : Int, Sound d cells (do
      if !Value.fitsLong (amount * sign) then Host.fail (.overflow "ordinal")
      else Host.update (← refArg args 0) fun v => shifted v (amount * sign)) fun _ => True := by
    intro amount
    split
    · exact .fail trivial
    · refine (refArg_sound (t := .basic b) hvar).bind fun r hr => ?_
      obtain ⟨u, hu, hseen⟩ := hr
      obtain rfl := (hseen.resolve_left (by simp)).eq rfl
      exact Sound.update hu fun old hold => shifted_gives hold hb _
  unfold stepInPlace
  split
  · next v hv =>
    obtain ⟨n, hn⟩ := hamount v hv
    exact (Sound.liftFault (P := fun _ => True) (.of_eq hn trivial)).bind fun n _ => hstep n
  · exact (Sound.pure trivial).bind fun n (_ : True) => hstep n

theorem stepRoutines_sound (name : String) (sign : Int) : ∀ r ∈ stepRoutines name sign, r.Sound d := by
  have hone : ∀ b : Basic, (Ty.basic b).isOrdinal →
      (procedure name [varParam "x" (.basic b)] (stepInPlace sign)).Sound d := fun b hb =>
    procedure_sound fun cells args h => stepInPlace_sound hb
      (fun v hv => h.reference (i := 0) rfl rfl hv) fun v hv => by
        obtain ⟨passed, rfl, hpassed⟩ := h
        cases passed with
        | nil => cases hv
        | cons x passed =>
          cases passed with
          | nil => cases hv
          | cons y passed =>
            obtain ⟨-, ⟨t, mode, hf, -⟩, -⟩ := hpassed
            cases hf
  have htwo : ∀ b b' : Basic, (Ty.basic b).isOrdinal → (Ty.basic b').isOrdinal →
      (procedure name [varParam "x" (.basic b), param "n" (.basic b')] (stepInPlace sign)).Sound d :=
    fun b b' hb hb' => procedure_sound fun cells args h => stepInPlace_sound hb
      (fun v hv => h.reference (i := 0) rfl rfl hv)
      fun v hv => Value.asOrdinal_of_basic (h.value (i := 1) rfl (by simp [param]) hv) hb'
  simp only [stepRoutines, List.forall_mem_cons, List.not_mem_nil, false_imp_iff, implies_true,
    and_true]
  exact ⟨hone _ rfl, hone _ rfl, hone _ rfl, htwo _ _ rfl rfl, htwo _ _ rfl rfl, htwo _ _ rfl rfl⟩

theorem ordinals_sound : ∀ r ∈ ordinals, r.Sound d := by
  have hneighbour : ∀ name delta, ∀ r ∈ neighbourRoutines name delta, r.Sound d := by
    have hone : ∀ name delta (b : Basic), (Ty.basic b).isOrdinal →
        (function name [param "x" (.basic b)] (.basic b) (stepBy delta)).Sound d :=
      fun name delta b hb => function_sound fun cells args h =>
        (arg_hasType (i := 0) h rfl).bind fun v hv => .liftFault (shifted_gives hv hb delta)
    intro name delta
    simp only [neighbourRoutines, List.map_cons, List.map_nil, List.forall_mem_cons,
      List.not_mem_nil, false_imp_iff, implies_true, and_true]
    exact ⟨hone _ _ _ rfl, hone _ _ _ rfl, hone _ _ _ rfl, hone _ _ _ rfl⟩
  have hord : ∀ n (b : Basic), (Ty.basic b).isOrdinal →
      (function "ord" [param n (.basic b)] .integer ordinalResult).Sound d := fun n b hb =>
    function_sound fun cells args h => (ordinalArg_sound (i := 0) h rfl hb).bind fun _ _ =>
      integerResult_sound _
  have hchr : (function "chr" [param "code" .integer] .char chr).Sound d :=
    function_sound fun cells args h => (ordinalArg_sound (i := 0) h rfl rfl).bind fun _ _ => by
      split
      · next hv => exact .pure (Value.basic_of_char? hv)
      · exact .fail (.inl rfl)
  simp only [ordinals, List.forall_mem_append, List.forall_mem_cons, List.not_mem_nil,
    false_imp_iff, implies_true, and_true]
  exact ⟨⟨⟨⟨⟨⟨function_sound fun _ _ h => (stringArg_sound (i := 0) h rfl).bind fun _ _ =>
      integerResult_sound _,
    function_sound fun _ _ h => (arrayArg_sound h rfl).bind fun _ _ => integerResult_sound _,
    function_sound fun _ _ h => (arrayArg_sound h rfl).bind fun _ _ => integerResult_sound _,
    function_sound fun _ _ h => (arrayArg_sound h rfl).bind fun _ _ => integerResult_sound _,
    function_sound fun _ _ h => (arg_hasType (i := 0) h rfl).bind fun _ _ => integerResult_sound _,
    hord _ _ rfl, hord _ _ rfl, hord _ _ rfl,
    function_sound fun _ _ h => (ordinalArg_sound (i := 0) h rfl rfl).bind fun _ _ => .pure rfl,
    hchr⟩, hneighbour _ _⟩, hneighbour _ _⟩,
    function_sound fun _ _ h => (ordinalArg_sound (i := 0) h rfl rfl).bind fun _ _ => .pure rfl⟩,
    stepRoutines_sound _ _⟩, stepRoutines_sound _ _⟩

/-- A routine for numbers of all kinds gives a number of the same kind. -/
theorem numberRoutines_sound {name : String} {g : Value → Host Value}
    (hinteger : ∀ cells n, Sound d cells (g (.integer n)) (Value.HasType cells .integer))
    (hlong : ∀ cells n, Sound d cells (g (.long n)) (Value.HasType cells .long))
    (hdouble : ∀ cells x, Sound d cells (g (.double x)) (Value.HasType cells .double)) :
    ∀ r ∈ numberRoutines name (fun args => arg args 0 >>= g), r.Sound d := by
  simp only [numberRoutines, List.map_cons, List.map_nil, List.forall_mem_cons, List.not_mem_nil,
    false_imp_iff, implies_true, and_true]
  refine ⟨function_sound fun cells args h => (arg_hasType (i := 0) h rfl).bind fun v hv => ?_,
    function_sound fun cells args h => (arg_hasType (i := 0) h rfl).bind fun v hv => ?_,
    function_sound fun cells args h => (arg_hasType (i := 0) h rfl).bind fun v hv => ?_⟩
  · obtain ⟨n, rfl⟩ := Value.eq_integer hv
    exact hinteger cells n
  · obtain ⟨n, rfl⟩ := Value.eq_long hv
    exact hlong cells n
  · obtain ⟨x, rfl⟩ := Value.eq_double hv
    exact hdouble cells x

theorem numbers_sound : ∀ r ∈ numbers, r.Sound d := by
  simp only [numbers, List.forall_mem_append, List.forall_mem_cons, List.not_mem_nil,
    false_imp_iff, implies_true, and_true]
  exact ⟨⟨numberRoutines_sound (fun _ _ => orOverflow_integer _ _) (fun _ _ => orOverflow_long _ _)
      fun _ _ => .pure rfl,
    numberRoutines_sound (fun _ _ => orOverflow_integer _ _) (fun _ _ => orOverflow_long _ _)
      fun _ _ => .pure rfl⟩,
    function_sound fun _ _ h => (realArg_sound (i := 0) h rfl).bind fun _ _ => .pure rfl,
    function_sound fun _ _ h => (realArg_sound (i := 0) h rfl).bind fun _ _ => wholeResult_sound _ _,
    function_sound fun _ _ h => (realArg_sound (i := 0) h rfl).bind fun _ _ =>
      wholeResult_sound _ _⟩

theorem strings_sound : ∀ r ∈ strings, r.Sound d := by
  have hstrToInt : (function "strtoint" [param "text" .string] .integer strToInt).Sound d :=
    function_sound fun cells args h => (stringArg_sound (i := 0) h rfl).bind fun _ _ => by
      split
      · next hv =>
        obtain ⟨_, -, hv⟩ := Option.bind_eq_some_iff.mp hv
        exact .pure (Value.basic_of_integer? hv)
      · exact .fail trivial
  simp only [strings, List.forall_mem_cons, List.not_mem_nil, false_imp_iff, implies_true, and_true]
  exact ⟨function_sound fun _ _ h => (ordinalArg_sound (i := 0) h rfl rfl).bind fun _ _ => .pure rfl,
    hstrToInt,
    function_sound fun _ _ h => (arg_hasType (i := 0) h rfl).bind fun v hv => by
      obtain ⟨c, rfl⟩ := Value.eq_char hv
      exact .pure rfl,
    function_sound fun _ _ h => (stringArg_sound (i := 0) h rfl).bind fun _ _ => .pure rfl,
    function_sound fun _ _ h => (stringArg_sound (i := 0) h rfl).bind fun _ _ =>
      (ordinalArg_sound (i := 1) h rfl rfl).bind fun _ _ =>
        (ordinalArg_sound (i := 2) h rfl rfl).bind fun _ _ => .pure rfl,
    function_sound fun _ _ h => (stringArg_sound (i := 0) h rfl).bind fun _ _ =>
      (stringArg_sound (i := 1) h rfl).bind fun _ _ => by
        split <;> exact integerResult_sound _,
    function_sound fun _ args _ => (renderAll_sound args).bind fun _ _ => .pure rfl⟩

theorem math_sound : ∀ r ∈ math.routines, r.Sound d := by
  have hreal : ∀ name f, (real name f).Sound d := fun name f =>
    function_sound fun _ _ h => (realArg_sound (i := 0) h rfl).bind fun _ _ => .pure rfl
  have hpick : ∀ name relation, relation = .greaterEqual ∨ relation = .lessEqual →
      ∀ r ∈ pickRoutines name relation, r.Sound d := by
    intro name relation hrelation
    have hone : ∀ b : Basic, (function name [param "a" (.basic b), param "b" (.basic b)] (.basic b)
        (pick relation)).Sound d := fun b => function_sound fun cells args h =>
      (arg_hasType (i := 0) h rfl).bind fun v hv => (arg_hasType (i := 1) h rfl).bind fun w hw => by
        have htakes : relation.Takes (.basic b) (.basic b) .boolean := by
          rcases hrelation with rfl | rfl <;> exact .common rfl
        have hgives : Gives (do (← Value.binary relation v w).asBool) fun _ => True :=
          (Value.binary_gives htakes hv hw).bind fun x hx => by
            obtain ⟨y, rfl⟩ := Value.eq_boolean hx
            exact .of_eq rfl trivial
        refine (Sound.liftFault hgives).bind fun keep _ => .pure ?_
        split
        · exact hv
        · exact hw
    simp only [pickRoutines, List.map_cons, List.map_nil, List.forall_mem_cons, List.not_mem_nil,
      false_imp_iff, implies_true, and_true]
    exact ⟨hone _, hone _, hone _⟩
  simp only [math, List.forall_mem_append, List.forall_mem_cons, List.not_mem_nil, false_imp_iff,
    implies_true, and_true]
  exact ⟨⟨⟨hreal _ _, hreal _ _, hreal _ _, hreal _ _, hreal _ _, hreal _ _, hreal _ _, hreal _ _,
    function_sound fun _ _ h => (realArg_sound (i := 0) h rfl).bind fun _ _ =>
      (realArg_sound (i := 1) h rfl).bind fun _ _ => .pure rfl,
    function_sound fun _ _ h => (realArg_sound (i := 0) h rfl).bind fun _ _ => wholeResult_sound _ _,
    function_sound fun _ _ h => (realArg_sound (i := 0) h rfl).bind fun _ _ =>
      wholeResult_sound _ _⟩, hpick _ _ (.inl rfl)⟩, hpick _ _ (.inr rfl)⟩

theorem crt_sound : ∀ r ∈ crt.routines, r.Sound d := by
  simp only [crt, List.forall_mem_cons, List.not_mem_nil, false_imp_iff, implies_true, and_true]
  exact ⟨procedure_sound fun _ _ _ => .clearScreen, procedure_sound fun _ _ h =>
    (ordinalArg_sound (i := 0) h rfl rfl).bind fun _ _ => .checked⟩

/-- All routines of the standard libraries are sound. -/
theorem standard_sound : ∀ l ∈ standard, ∀ r ∈ l.routines, r.Sound d := by
  simp only [standard, List.forall_mem_cons, List.not_mem_nil, false_imp_iff, implies_true,
    and_true]
  refine ⟨?_, math_sound, crt_sound⟩
  simp only [system, List.forall_mem_append]
  exact ⟨⟨⟨inputOutput_sound, ordinals_sound⟩, numbers_sound⟩, strings_sound⟩

end Library

end Pascal
