import Pascal.Proofs.Files.Run
import Pascal.Proofs.Program.Natives
import Pascal.Proofs.Sound.Program

/-!
# The files of programs

In a program that copies no texts, different cells hold different files at every point of a run: each
variable, each parameter and each thing that `new` makes has a file of its own. It has no more than one,
though: all texts that a variable begins with are the same file.
-/

namespace Pascal

variable {α : Type} {S : Setting} {p : Program} {l : Launch}

namespace Setting.Starts

/-- A run of a program that copies no texts is planned with texts apart for all its statements. -/
theorem plan_meets_apart (h : S.Starts p l) (hs : ∀ s ∈ p.stages, s.keepsTexts)
    (hw : (p.start l).world.Apart) : (p.plan l).Meets (p.env l) S.apart
      (fun r => (Run.after r).world.Apart) (p.start l) := by
  refine .planStages (I := fun m => (∃ cells, m.Typed S cells) ∧ m.world.Apart) (fun s hmem m hm => ?_)
    ⟨h.start, hw⟩ fun m hm => hm.2
  obtain ⟨⟨cells, hm⟩, hapart⟩ := hm
  refine ⟨cells, ⟨⟨by simp, hm, h.stages s hmem⟩, hs s hmem, hapart⟩, fun r hr => ?_⟩
  obtain ⟨hsound, hapart⟩ := hr
  have hsound : Run.Sound S m.active cells (fun _ _ => True) r := hsound
  cases r with
  | ok flow m' => exact ⟨hsound.typed, hapart⟩
  | error e m' => exact hapart

/-- All machines that a run of a program that copies no texts goes through have texts apart. -/
theorem apart (h : S.Starts p l) (hk : p.arena.KeepsTexts) (hs : ∀ s ∈ p.stages, s.keepsTexts)
    (hw : (p.start l).world.Apart) {m : Machine} (hm : p.Reachable l m) : m.world.Apart := by
  have hkept : S.apart.Kept (p.env l) := h.env ▸ h.sound.apart_kept (by rw [h.env]; exact hk)
  have hbefore {α : Type} {t : Task α} {m : Machine} (ht : p.Reaches l t m) :
      ∃ cells, S.apart.before cells t m := ht.before hkept (h.plan_meets_apart hs hw)
  cases hm with
  | start => exact hw
  | begins ht =>
    obtain ⟨cells, -, -, hapart⟩ := hbefore ht
    exact hapart
  | @ends α t m ht =>
    obtain ⟨cells, hb⟩ := hbefore ht
    exact (hkept.perform t cells m hb).2

end Setting.Starts

/-- Whether a reference leads to a text that is a certain file. -/
def World.refers (w : World) (r : Ref) (n : Nat) : Bool :=
  match w.store.get r with
  | .ok (.text n') => n' == n
  | _ => false

theorem World.get_of_refers {w : World} {r : Ref} {n : Nat} (h : w.refers r n) :
    w.store.get r = .ok (.text n) := by
  unfold World.refers at h
  split at h
  · rename_i hget
    rw [hget, eq_of_beq h]
  · cases h

/-- Whether a main program without units ends with a world that has a property. -/
def Program.endsWith (p : Program) (l : Launch) (P : World → Bool) : Bool :=
  p.units.isEmpty && P (Run.after
    (Task.perform (p.env l) ⟨.stmt p.body, [], l.settings.maxCallDepth⟩ (p.start l))).world

theorem Program.reachable_of_endsWith {P : World → Bool} (h : p.endsWith l P) :
    ∃ m, p.Reachable l m ∧ P m.world := by
  obtain ⟨hunits, hP⟩ := Bool.and_eq_true_iff.mp h
  exact ⟨_, .ends (Toolchain.reaches_body (List.isEmpty_iff.mp hunits) l), hP⟩

namespace Toolchain

variable {t : Toolchain} {unit source : String}

/-- Files are separate but for those that a variable begins with. In an initial value, texts at different
places are different files just where there is no more than one text. Where a program copies no texts, then
at every point of a run two texts are the same file just where one cell holds them both, and what is called
on the file of one cell leaves the files of all other cells as they are. -/
theorem compile_textFiles (h : t.compile unit source = .ok p) (hp : p.keepsTexts)
    (hl : ∀ l ∈ t.libraries, l.Fits {} ∧ ∀ r ∈ l.routines, r.Sound {} ∧ r.Spares)
    (hw : l.world.store = {}) :
    (∀ (w : World) (ty : Ty), (∀ path path' n, (w.initialValue ty).1.follow path = .ok (.text n) →
      (w.initialValue ty).1.follow path' = .ok (.text n) → path = path') ↔ ty.texts ≤ 1) ∧
    ∀ m, p.Reachable l m → ∀ (r r' : Ref) n n', m.world.store.get r = .ok (.text n) →
      m.world.store.get r' = .ok (.text n') →
      (n = n' ↔ r.cell = r'.cell) ∧ (r.cell ≠ r'.cell → ∀ call : FileCall,
        (Host.after (call.run .buffered n m.world)).file n' = m.world.file n') := by
  refine ⟨fun w ty => ?_, fun m hm r r' n n' hr hr' => ?_⟩
  · unfold World.initialValue
    split <;> exact ty.initial_apart_iff _
  obtain ⟨a, ha, hstarts⟩ := compile_starts (d := {}) h true nofun nofun
    (fun q _ => Program.closes_of_kinds rfl q)
    (fun l hmem => ⟨(hl l hmem).1, fun r hr => ((hl l hmem).2 r hr).1⟩) hw
  have hkeeps : p.arena.KeepsTexts := Program.keepsTexts_arena hp fun id r hr => by
    obtain ⟨l, hmem, hr⟩ := compile_native_mem h hr
    exact ((hl l hmem).2 r hr).2
  have hstart : (p.start l).world.Apart := (World.Apart.of_empty hw).globalFrames hkeeps.vars _
  have hsame := (hstarts.apart hkeeps (Program.keepsTexts_stages hp) hstart hm).get hr hr'
  exact ⟨hsame, fun hcell call => call.file_run _ (fun he => hcell (hsame.mp he.symm)) m.world⟩

/-- Two variables of which one is an array of texts. -/
def separateTexts : String :=
  "var f: text; g: array[1..2] of text;
   begin assign(f, 'one'); assign(g[1], 'two'); rewrite(g[2]) end."

/-- The hypotheses hold of a program with texts in two variables, which are different files. -/
theorem compile_textFiles_separate : ∃ (p : Program) (l : Launch) (m : Machine),
    standard.compile "test" separateTexts = .ok p ∧ p.keepsTexts ∧ p.Reachable l m ∧
    m.world.store.get ⟨0, []⟩ = .ok (.text 0) ∧
    m.world.store.get ⟨1, [.element 2]⟩ = .ok (.text 1) ∧
    (Host.after (FileCall.close.run .buffered 1 m.world)).file 0 = m.world.file 0 := by
  let l : Launch := ⟨{}, none, 100, { console := .ofInput "" }⟩
  have hholds : (standard.compile "test" separateTexts).toOption.any fun p => p.keepsTexts &&
      p.endsWith l fun w => w.refers ⟨0, []⟩ 0 && w.refers ⟨1, [.element 2]⟩ 1 := by decide +kernel
  obtain ⟨p, hp, hholds⟩ := exists_ok_of_any hholds
  obtain ⟨hkeeps, hends⟩ := Bool.and_eq_true_iff.mp hholds
  obtain ⟨m, hm, hrefers⟩ := Program.reachable_of_endsWith hends
  obtain ⟨hf, hg⟩ := Bool.and_eq_true_iff.mp hrefers
  have hf := World.get_of_refers hf
  have hg := World.get_of_refers hg
  have hl : ∀ l ∈ standard.libraries, l.Fits {} ∧ ∀ r ∈ l.routines, r.Sound {} ∧ r.Spares :=
    fun l hmem => ⟨Library.standard_fits l hmem, fun r hr =>
      ⟨Library.standard_sound l hmem r hr, Library.standard_spares l hmem r hr⟩⟩
  exact ⟨p, l, m, hp, hkeeps, hm, hf, hg,
    ((compile_textFiles hp hkeeps hl rfl).2 m hm _ _ 1 0 hg hf).2 (by decide) .close⟩

/-- An array of texts with names of their own. -/
def sharedTexts : String :=
  "var f: array[1..2] of text;
   begin assign(f[1], 'one.txt'); assign(f[2], 'two.txt'); rewrite(f[1]) end."

/-- The elements of an array are one file: the name given to the second is that of the first too, and a
name that the first is then given is that of the second. -/
theorem compile_textFiles_shared : ∃ (p : Program) (l : Launch) (m : Machine),
    standard.compile "test" sharedTexts = .ok p ∧ p.keepsTexts ∧ p.Reachable l m ∧
    m.world.store.get ⟨0, [.element 1]⟩ = .ok (.text 0) ∧
    m.world.store.get ⟨0, [.element 2]⟩ = .ok (.text 0) ∧
    (m.world.file 0).name = some "two.txt" ∧
    ((Host.after ((FileCall.assign "other").run .buffered 0 m.world)).file 0).name = some "other" := by
  let l : Launch := ⟨{}, none, 100, { console := .ofInput "" }⟩
  have hholds : (standard.compile "test" sharedTexts).toOption.any fun p => p.keepsTexts &&
      p.endsWith l fun w => (w.refers ⟨0, [.element 1]⟩ 0 && w.refers ⟨0, [.element 2]⟩ 0) &&
        ((w.file 0).name == some "two.txt" &&
        ((Host.after ((FileCall.assign "other").run .buffered 0 w)).file 0).name == some "other") := by
    decide +kernel
  obtain ⟨p, hp, hholds⟩ := exists_ok_of_any hholds
  obtain ⟨hkeeps, hends⟩ := Bool.and_eq_true_iff.mp hholds
  obtain ⟨m, hm, hrefers⟩ := Program.reachable_of_endsWith hends
  simp only [Bool.and_eq_true, beq_iff_eq] at hrefers
  obtain ⟨⟨hf, hg⟩, hnames⟩ := hrefers
  exact ⟨p, l, m, hp, hkeeps, hm, World.get_of_refers hf, World.get_of_refers hg, hnames⟩

end Toolchain

end Pascal
