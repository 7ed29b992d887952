import Mathlib
import Pascal.Console.Reader
import Pascal.Proofs.Simulation

/-!
# A reader as a stream of characters

The lines of a reader stand for one row of characters in which every line ends with a newline. Whatever
is asked of the reader, in any order, it answers as the row does: the line that has been begun and the
lines to come are a way to keep the row.
-/

namespace Pascal

/-- What can be asked of unread text. -/
inductive Reader.Request where
  | word | char | rest | finishLine | atEnd
deriving DecidableEq, Repr

inductive Reader.Answer where
  | text (s : String)
  | char (c : Char)
  | done
  | flag (b : Bool)
deriving DecidableEq, Repr

namespace Reader

/-- The fault of a request, if it fails. -/
def fault? {σ : Type} : EStateM.Result Fault σ Answer → Option Fault
  | .ok _ _ => none
  | .error f _ => some f

end Reader

namespace Stream

/-- Reading from a row of characters. -/
abbrev Read := EStateM Fault (List Char)

/-- Passes over white space, newlines among it, and takes all that comes before the next white space. -/
def word : Read String := fun s =>
  match s.dropWhile Text.isBlank with
  | [] => .error .inputExhausted []
  | c :: cs =>
    .ok (String.ofList ((c :: cs).takeWhile (!Text.isBlank ·))) ((c :: cs).dropWhile (!Text.isBlank ·))

/-- Takes one character. A newline reads as a space. -/
def char : Read Char := fun s =>
  match s with
  | [] => .error .inputExhausted []
  | c :: cs => .ok (if c = '\n' then ' ' else c) cs

/-- Takes all that comes before the next newline. -/
def rest : Read String := fun s =>
  if s.isEmpty then .error .inputExhausted s
  else .ok (String.ofList (s.takeWhile (· ≠ '\n'))) (s.dropWhile (· ≠ '\n'))

/-- Drops all up to the next newline and the newline itself. -/
def finishLine : Read Unit := fun s =>
  if s.isEmpty then .error .inputExhausted s
  else .ok () ((s.dropWhile (· ≠ '\n')).drop 1)

/-- Whether nothing is left. -/
def atEnd : Read Bool := fun s => .ok s.isEmpty s

def ask : Reader.Request → Read Reader.Answer
  | .word => return .text (← word)
  | .char => return .char (← char)
  | .rest => return .text (← rest)
  | .finishLine => do finishLine; return .done
  | .atEnd => return .flag (← atEnd)

/-- Whether a row has nothing for a request: nothing at all, or for a word nothing but white space. -/
def lacks (s : List Char) : Reader.Request → Bool
  | .word => s.all Text.isBlank
  | .atEnd => false
  | .char | .rest | .finishLine => s.isEmpty

/-- The row of characters that some lines stand for. -/
def ofLines (lines : List String) : List Char := lines.flatMap fun line => line.toList ++ ['\n']

@[simp] theorem ofLines_nil : ofLines [] = [] := rfl

@[simp] theorem ofLines_cons (line : String) (lines : List String) :
    ofLines (line :: lines) = line.toList ++ '\n' :: ofLines lines := by
  simp [ofLines]

section

variable {line : List Char} {s : List Char}

theorem dropWhile_line (h : '\n' ∉ line) :
    (line ++ '\n' :: s).dropWhile (fun c => decide (c ≠ '\n')) = '\n' :: s := by
  rw [List.dropWhile_append_of_pos, List.dropWhile_cons_of_neg (by simp)]
  intro c hc
  exact decide_eq_true fun hnewline => h (hnewline ▸ hc)

theorem takeWhile_line (h : '\n' ∉ line) :
    (line ++ '\n' :: s).takeWhile (fun c => decide (c ≠ '\n')) = line := by
  rw [List.takeWhile_append_of_pos, List.takeWhile_cons_of_neg (by simp), List.append_nil]
  intro c hc
  exact decide_eq_true fun hnewline => h (hnewline ▸ hc)

theorem rest_line (h : '\n' ∉ line) :
    rest (line ++ '\n' :: s) = .ok (String.ofList line) ('\n' :: s) := by
  rw [rest, if_neg (by simp), takeWhile_line h, dropWhile_line h]

theorem finishLine_line (h : '\n' ∉ line) : finishLine (line ++ '\n' :: s) = .ok () s := by
  rw [finishLine, if_neg (by simp), dropWhile_line h, List.drop_one, List.tail_cons]

/-- A line of white space hides nothing that comes behind it. -/
theorem word_blank (h : Text.trimStart line = []) : word (line ++ '\n' :: s) = word s := by
  have hblank : (line ++ '\n' :: s).dropWhile Text.isBlank = s.dropWhile Text.isBlank := by
    rw [List.dropWhile_append, show line.dropWhile Text.isBlank = [] from h, List.isEmpty_nil, if_pos rfl,
      List.dropWhile_cons_of_pos (by decide)]
  simp only [word, hblank]

/-- The end of a line is the end of its last word. -/
theorem word_line {c : Char} {cs : List Char} (h : Text.trimStart line = c :: cs) :
    word (line ++ '\n' :: s) =
      .ok (String.ofList (Text.splitWord (c :: cs)).1) ((Text.splitWord (c :: cs)).2 ++ '\n' :: s) := by
  have hstart : (line ++ '\n' :: s).dropWhile Text.isBlank = c :: (cs ++ '\n' :: s) := by
    rw [List.dropWhile_append, show line.dropWhile Text.isBlank = c :: cs from h, if_neg (by simp)]
    rfl
  have htake : (c :: (cs ++ '\n' :: s)).takeWhile (!Text.isBlank ·) =
      (c :: cs).takeWhile (!Text.isBlank ·) := by
    rw [← List.cons_append, List.takeWhile_append]
    split
    · next hall =>
      rw [List.takeWhile_cons_of_neg (by decide), List.append_nil]
      exact ((List.takeWhile_prefix _).eq_of_length hall).symm
    · rfl
  have hdrop : (c :: (cs ++ '\n' :: s)).dropWhile (!Text.isBlank ·) =
      (c :: cs).dropWhile (!Text.isBlank ·) ++ '\n' :: s := by
    rw [← List.cons_append, List.dropWhile_append]
    split
    · next hnil =>
      rw [List.isEmpty_iff.mp hnil, List.dropWhile_cons_of_neg (by decide), List.nil_append]
    · rfl
  simp only [word, hstart, htake, hdrop, Text.splitWord, List.span_eq_takeWhile_dropWhile]

end

/-- A request fails where the row has nothing for it, and nowhere else. -/
theorem fault?_ask (request : Reader.Request) (s : List Char) :
    Reader.fault? (ask request s) = if lacks s request then some .inputExhausted else none := by
  cases request with
  | word =>
    cases hstart : s.dropWhile Text.isBlank with
    | nil =>
      have hlacks : s.all Text.isBlank := List.all_eq_true.mpr (List.dropWhile_eq_nil_iff.mp hstart)
      have hword : word s = .error .inputExhausted [] := by rw [word, hstart]
      simp [ask, lacks, hlacks, hword, Bind.bind, EStateM.bind, Reader.fault?]
    | cons c cs =>
      have hlacks : s.all Text.isBlank = false := by
        refine Bool.eq_false_iff.mpr fun hall => ?_
        rw [List.dropWhile_eq_nil_iff.mpr (List.all_eq_true.mp hall)] at hstart
        cases hstart
      have hword : ∃ w s', word s = .ok w s' := ⟨_, _, by rw [word, hstart]⟩
      obtain ⟨w, s', hword⟩ := hword
      simp [ask, lacks, hlacks, hword, Bind.bind, EStateM.bind, Pure.pure, EStateM.pure, Reader.fault?]
  | char => cases s <;> rfl
  | rest => cases s <;> rfl
  | finishLine => cases s <;> rfl
  | atEnd => rfl

end Stream

namespace Reader

def ask : Request → Read Answer
  | .word => return .text (← word)
  | .char => return .char (← char)
  | .rest => return .text (← rest)
  | .finishLine => do finishLine; return .done
  | .atEnd => return .flag (← atEnd)

/-- The row of characters that a reader stands for. -/
def unread (r : Reader) : List Char :=
  match r.pending with
  | some line => line ++ '\n' :: Stream.ofLines r.lines
  | none => Stream.ofLines r.lines

/-- Lines can be fetched, and no line has a newline in it. -/
structure Lined (r : Reader) : Prop where
  fetches : r.refusal = none
  pending : ∀ line, r.pending = some line → '\n' ∉ line
  lines : ∀ line ∈ r.lines, '\n' ∉ line.toList

/-- A reader of lines stands for a row of characters. -/
structure StandsFor (r : Reader) (s : List Char) : Prop where
  lined : r.Lined
  row : s = r.unread

section

variable {r : Reader}

theorem Lined.begin (h : r.Lined) {line : List Char} (hline : '\n' ∉ line) :
    Lined { r with pending := some line } :=
  ⟨h.fetches, fun _ heq => Option.some.inj heq ▸ hline, h.lines⟩

theorem Lined.finish (h : r.Lined) : Lined { r with pending := none } :=
  ⟨h.fetches, fun _ heq => (nomatch heq), h.lines⟩

/-- Without a line that has been begun, the next line is the one that the row begins with. -/
theorem nextLine_cases (h : r.Lined) (hnone : r.pending = none) :
    (nextLine r = .ok none r ∧ r.unread = []) ∨
    ∃ line r', nextLine r = .ok (some line) r' ∧ '\n' ∉ line ∧ r'.Lined ∧ r'.pending = none ∧
      r.unread = line ++ '\n' :: Stream.ofLines r'.lines := by
  obtain ⟨pending, lines, refusal⟩ := r
  obtain ⟨rfl, -, hlines⟩ := h
  cases hnone
  cases lines with
  | nil => exact .inl ⟨rfl, rfl⟩
  | cons line lines =>
    obtain ⟨hline, hlines⟩ := List.forall_mem_cons.mp hlines
    exact .inr ⟨_, ⟨none, lines, none⟩, rfl, hline, ⟨rfl, nofun, hlines⟩, rfl,
      Stream.ofLines_cons line lines⟩

/-- A reader at the end of the row has no current line, and any other one has the line that the row
begins with. -/
theorem current_cases (h : r.Lined) :
    (current r = .error .inputExhausted r ∧ r.unread = []) ∨
    ∃ line r', current r = .ok line r' ∧ '\n' ∉ line ∧ r'.Lined ∧ r'.pending = some line ∧
      r.unread = line ++ '\n' :: Stream.ofLines r'.lines := by
  cases hpending : r.pending with
  | some line =>
    refine .inr ⟨line, r, ?_, h.pending line hpending, h, hpending, ?_⟩
    · rw [current, hpending]
    · rw [unread, hpending]
  | none =>
    rcases nextLine_cases h hpending with ⟨hnext, hunread⟩ | ⟨line, r', hnext, hline, hr', -, hunread⟩
    · refine .inl ⟨?_, hunread⟩
      rw [current, hpending, demandLine, hnext]
    · refine .inr ⟨line, { r' with pending := some line }, ?_, hline, hr'.begin hline, rfl, hunread⟩
      rw [current, hpending, demandLine, hnext]

theorem unread_pending {line : List Char} (h : r.pending = some line) :
    r.unread = line ++ '\n' :: Stream.ofLines r.lines := by
  rw [unread, h]

theorem agree_exhausted {α : Type} (h : r.Lined) (hunread : r.unread = []) :
    Agree StandsFor (.error .inputExhausted r : EStateM.Result Fault Reader α)
      (.error .inputExhausted []) := by
  rw [← hunread]
  exact .error ⟨h, rfl⟩

theorem char_refines : Refines StandsFor char Stream.char := by
  rintro r _ ⟨hr, rfl⟩
  rcases current_cases hr with ⟨hcurrent, hunread⟩ | ⟨line, r', hcurrent, hline, hr', -, hunread⟩
  · have hagree : Agree StandsFor (.error .inputExhausted r) (Stream.char r.unread) := by
      rw [hunread]
      exact agree_exhausted hr hunread
    simpa only [char, hcurrent] using hagree
  · cases line with
    | nil =>
      have hagree : Agree StandsFor (.ok ' ' { r' with pending := none }) (Stream.char r.unread) := by
        rw [hunread]
        exact .ok ⟨hr'.finish, rfl⟩
      simpa only [char, hcurrent] using hagree
    | cons c line =>
      obtain ⟨hc, hline⟩ := not_or.mp fun hmem => hline (List.mem_cons.mpr hmem)
      have hagree : Agree StandsFor (.ok c { r' with pending := some line }) (Stream.char r.unread) := by
        rw [hunread, List.cons_append, Stream.char, if_neg (Ne.symm hc)]
        exact .ok ⟨hr'.begin hline, rfl⟩
      simpa only [char, hcurrent] using hagree

theorem rest_refines : Refines StandsFor rest Stream.rest := by
  rintro r _ ⟨hr, rfl⟩
  rcases current_cases hr with ⟨hcurrent, hunread⟩ | ⟨line, r', hcurrent, hline, hr', -, hunread⟩
  · have hagree : Agree StandsFor (.error .inputExhausted r) (Stream.rest r.unread) := by
      rw [hunread]
      exact agree_exhausted hr hunread
    simpa only [rest, hcurrent] using hagree
  · have hagree : Agree StandsFor (.ok (String.ofList line) { r' with pending := some [] })
        (Stream.rest r.unread) := by
      rw [hunread, Stream.rest_line hline]
      exact .ok ⟨hr'.begin (by simp), rfl⟩
    simpa only [rest, hcurrent] using hagree

theorem finishLine_refines : Refines StandsFor finishLine Stream.finishLine := by
  rintro r _ ⟨hr, rfl⟩
  cases hpending : r.pending with
  | some line =>
    have hagree : Agree StandsFor (.ok () { r with pending := none }) (Stream.finishLine r.unread) := by
      rw [unread_pending hpending, Stream.finishLine_line (hr.pending line hpending)]
      exact .ok ⟨hr.finish, rfl⟩
    simpa only [finishLine, hpending] using hagree
  | none =>
    rcases nextLine_cases hr hpending with
      ⟨hnext, hunread⟩ | ⟨line, r', hnext, hline, hr', hnone, hunread⟩
    · have hagree : Agree StandsFor (.error .inputExhausted r) (Stream.finishLine r.unread) := by
        rw [hunread]
        exact agree_exhausted hr hunread
      simpa only [finishLine, hpending, demandLine, hnext] using hagree
    · have hagree : Agree StandsFor (.ok () r') (Stream.finishLine r.unread) := by
        have hrest : r'.unread = Stream.ofLines r'.lines := by rw [unread, hnone]
        rw [hunread, Stream.finishLine_line hline, ← hrest]
        exact .ok ⟨hr', rfl⟩
      simpa only [finishLine, hpending, demandLine, hnext] using hagree

theorem atEnd_refines : Refines StandsFor atEnd Stream.atEnd := by
  rintro r _ ⟨hr, rfl⟩
  cases hpending : r.pending with
  | some line =>
    have hagree : Agree StandsFor (.ok false r) (Stream.atEnd r.unread) := by
      have hmore : r.unread.isEmpty = false := by simp [unread_pending hpending]
      rw [Stream.atEnd, hmore]
      exact .ok ⟨hr, rfl⟩
    simpa only [atEnd, hpending] using hagree
  | none =>
    rcases nextLine_cases hr hpending with
      ⟨hnext, hunread⟩ | ⟨line, r', hnext, hline, hr', hnone, hunread⟩
    · have hagree : Agree StandsFor (.ok true r) (Stream.atEnd r.unread) := by
        have hend : r.unread.isEmpty = true := by simp [hunread]
        rw [Stream.atEnd, hend]
        exact .ok ⟨hr, rfl⟩
      simpa only [atEnd, hpending, hnext] using hagree
    · -- the line that was fetched is begun, which changes nothing in the row
      have hagree :
          Agree StandsFor (.ok false { r' with pending := some line }) (Stream.atEnd r.unread) := by
        have hmore : r.unread.isEmpty = false := by simp [hunread]
        rw [Stream.atEnd, hmore, hunread]
        exact .ok ⟨hr'.begin hline, rfl⟩
      simpa only [atEnd, hpending, hnext] using hagree

/-- A line that holds a word begins the row with it. -/
theorem wordFrom_line {line : List Char} {lines : List String} (hline : '\n' ∉ line)
    (hlines : ∀ line ∈ lines, '\n' ∉ line.toList) {c : Char} {cs : List Char}
    (htrim : Text.trimStart line = c :: cs) :
    Agree StandsFor (wordFrom none line lines)
      (Stream.word (line ++ '\n' :: Stream.ofLines lines)) := by
  have hrest : '\n' ∉ (Text.splitWord (c :: cs)).2 := by
    intro hmem
    rw [Text.splitWord, List.span_eq_takeWhile_dropWhile] at hmem
    have hmem : '\n' ∈ Text.trimStart line := htrim ▸ (List.dropWhile_sublist _).mem hmem
    exact hline ((List.dropWhile_sublist _).mem hmem)
  rw [Stream.word_line htrim, wordFrom.eq_def, htrim]
  have hlined : Lined ⟨some (Text.splitWord (c :: cs)).2, lines, none⟩ :=
    ⟨rfl, fun _ heq => Option.some.inj heq ▸ hrest, hlines⟩
  exact .ok ⟨hlined, rfl⟩

/-- A word is looked for on one line after the other, and these are the row. -/
theorem wordFrom_agrees {line : List Char} {lines : List String} (hline : '\n' ∉ line)
    (hlines : ∀ line ∈ lines, '\n' ∉ line.toList) :
    Agree StandsFor (wordFrom none line lines)
      (Stream.word (line ++ '\n' :: Stream.ofLines lines)) := by
  induction lines generalizing line with
  | nil =>
    cases htrim : Text.trimStart line with
    | cons c cs => exact wordFrom_line hline hlines htrim
    | nil =>
      rw [Stream.word_blank htrim, wordFrom, htrim]
      have hlined : Lined ⟨none, [], none⟩ := ⟨rfl, by simp, hlines⟩
      exact .error ⟨hlined, rfl⟩
  | cons next lines ih =>
    cases htrim : Text.trimStart line with
    | cons c cs => exact wordFrom_line hline hlines htrim
    | nil =>
      obtain ⟨hnext, hlines⟩ := List.forall_mem_cons.mp hlines
      rw [Stream.word_blank htrim, wordFrom, htrim, Stream.ofLines_cons]
      exact ih hnext hlines

theorem word_refines : Refines StandsFor word Stream.word := by
  rintro r _ ⟨hr, rfl⟩
  rcases current_cases hr with ⟨hcurrent, hunread⟩ | ⟨line, r', hcurrent, hline, hr', -, hunread⟩
  · have hagree : Agree StandsFor (.error .inputExhausted r) (Stream.word r.unread) := by
      rw [hunread]
      exact agree_exhausted hr hunread
    simpa only [word, hcurrent] using hagree
  · have hagree := wordFrom_agrees hline hr'.lines
    rw [← hunread, ← hr'.fetches] at hagree
    simpa only [word, hcurrent] using hagree

theorem ask_refines (request : Request) : Refines StandsFor (ask request) (Stream.ask request) := by
  cases request with
  | word => exact word_refines.bind fun w => .pure (Answer.text w)
  | char => exact char_refines.bind fun c => .pure (Answer.char c)
  | rest => exact rest_refines.bind fun s => .pure (Answer.text s)
  | finishLine => exact finishLine_refines.bind fun _ => .pure Answer.done
  | atEnd => exact atEnd_refines.bind fun b => .pure (Answer.flag b)

theorem fault?_eq_of_agree {x : EStateM.Result Fault Reader Answer}
    {y : EStateM.Result Fault (List Char) Answer} (h : Agree StandsFor x y) : fault? x = fault? y := by
  cases h <;> rfl

end

/-- A reader of lines answers any requests, in any order, as the row of characters in which each line is
followed by a newline, and leaves unread what the row has left. The next request fails just if the row
then has nothing for it, and because the input is exhausted. -/
theorem inTurn_stream {lines : List String} (h : ∀ line ∈ lines, '\n' ∉ line.toList)
    (requests : List Request) :
    let (answers, last) := inTurn ask requests { lines }
    (answers, last.unread) = inTurn Stream.ask requests (Stream.ofLines lines) ∧
    ∀ request, fault? (ask request last) =
      if Stream.lacks last.unread request then some .inputExhausted else none := by
  have hstart : StandsFor { lines } (Stream.ofLines lines) := ⟨⟨rfl, nofun, h⟩, rfl⟩
  obtain ⟨hanswers, hlined, hunread⟩ := @inTurn_agree _ _ _ _ _ _ _ _ (fun _ _ => True)
    (fun request s t hst _ => ask_refines request s t hst) requests _ _ (fun _ _ => trivial) hstart
  refine ⟨Prod.ext hanswers hunread.symm, fun request => ?_⟩
  rw [fault?_eq_of_agree (ask_refines request _ _ ⟨hlined, rfl⟩), Stream.fault?_ask]

/-- Words over a blank line, the end of a line read as a space, and the rest of a line that has not
ended. -/
theorem inTurn_stream_lines :
    (∀ line ∈ ["12  7", "", " -3 x"], '\n' ∉ line.toList) ∧
    (inTurn ask [.word, .word, .char, .word, .rest, .rest, .atEnd, .char, .atEnd, .word]
      { lines := ["12  7", "", " -3 x"] }).1 =
      [.ok (.text "12"), .ok (.text "7"), .ok (.char ' '), .ok (.text "-3"), .ok (.text " x"),
        .ok (.text ""), .ok (.flag false), .ok (.char ' '), .ok (.flag true),
        .error .inputExhausted] := by
  have hlines : ∀ line ∈ ["12  7", "", " -3 x"], '\n' ∉ line.toList := by decide
  refine ⟨hlines, ?_⟩
  have hstream := congrArg Prod.fst (inTurn_stream hlines
    [.word, .word, .char, .word, .rest, .rest, .atEnd, .char, .atEnd, .word]).1
  refine hstream.trans ?_
  decide +kernel

end Reader

end Pascal
