import Calculator.Program
import Calculator.Proofs.Session
import Calculator.Proofs.Number.Decimal
import Calculator.Proofs.TextLines

/- The program answers lines alike, whether they are its arguments, a file or standard input. How lines
   end, and the blank lines among them, make no difference. -/
namespace Calculator

def program (read : List String → Request) (arguments : List String)
    (file? : String → Option ByteArray) (input : List UInt8) : Output :=
  (read arguments).output file? input

/-- What is assumed of the reader of the arguments: it leaves those after `--` as they are, takes the one
    after `-f` as a path and knows `-q`. -/
structure ReadsModes (read : List String → Request) (path : String) : Prop where
  expressions : ∀ lines, lines ≠ [] → read ("--" :: lines) = .run ⟨none, false, lines⟩
  file : read ["-f", path] = .run ⟨some path, false, []⟩
  quiet : read ["-q"] = .run ⟨none, true, []⟩
  nothing : read [] = .run ⟨none, false, []⟩

/-- The texts shown for some lines in one session: one for each line that is not blank, and none of them
    longer than a line. -/
structure Session.Shows (s : Session) (lines shown : List String) : Prop where
  texts : shown.map some =
    (s.turns (lines.filter fun line => !isBlankLine line)).map (·.reply.text?)
  single : ∀ text ∈ shown, '\n' ∉ text.toList

def transcript (prompt : String) (shown : List String) : String :=
  prompt ++ String.join (shown.map fun text => text ++ "\n" ++ prompt)

variable {lines : List String} {path : String}

theorem foldlM_take (o : Options) (only : o.onlyExpressions = true) (lines : List String) :
    lines.foldlM Options.take o =
      .ok { o with asked.expressions := o.asked.expressions ++ lines } := by
  induction lines generalizing o with
  | nil => simp [pure, Except.pure]
  | cons line rest ih =>
    have step : o.take line = .ok (o.addExpression line.toList) := by simp [Options.take, only]
    have tail := ih (o.addExpression line.toList) only
    rw [List.foldlM_cons, step]
    simpa [bind, Except.bind, Options.addExpression] using tail

theorem ofArguments_expressions (lines : List String) :
    Request.ofArguments ("--" :: lines) = .run ⟨none, false, lines⟩ := by
  have marker : Options.start.take "--" = .ok { Options.start with onlyExpressions := true } := by
    rfl
  unfold Request.ofArguments
  rw [List.foldlM_cons, marker]
  simp only [bind, Except.bind]
  rw [foldlM_take _ rfl]
  simp [Options.finish, Options.start]

theorem text_single {reply : Reply} {text : String} (shown : reply.text? = some text) :
    '\n' ∉ text.toList := by
  cases reply with
  | blank => cases shown
  | rejected error =>
    obtain rfl := Option.some.inj shown
    decide
  | accepted value =>
    obtain rfl := Option.some.inj shown
    rw [String.toList_ofList]
    unfold writeResult Binary64.write
    intro newline
    split at newline
    · simp at newline
    · split at newline <;> simp at newline
    · rename_i negative mantissa exponent
      rcases List.mem_append.mp newline with sign | digit
      · split at sign <;> simp at sign
      · rcases (write_chars _).2 _ digit with digit | point <;> simp_all

theorem text_of_visible {line : String} (visible : isBlankLine line = false) (s : Session) :
    ∃ text, (s.enter line).reply.text? = some text := by
  cases read : Expr.ofTokens (lex line) with
  | error error => exact ⟨_, by rw [enter_rejected visible read]; rfl⟩
  | ok e => exact ⟨_, by rw [enter_accepted visible read]; rfl⟩

theorem answers_cons (s : Session) (line : String) (rest : List String) :
    s.answers (line :: rest) =
      (s.enter line).reply.text?.toList ++ (s.enter line).session.answers rest := by
  unfold Session.answers
  rw [Session.turns, List.filterMap_cons]
  cases (s.enter line).reply.text? <;> rfl

theorem answers_shown (s : Session) (lines : List String) : s.Shows lines (s.answers lines) := by
  induction lines generalizing s with
  | nil => exact ⟨rfl, by simp [Session.answers, Session.turns]⟩
  | cons line rest ih =>
    obtain ⟨texts, single⟩ := ih (s.enter line).session
    rw [answers_cons]
    cases visible : isBlankLine line with
    | true =>
      rw [enter_blank visible] at texts single ⊢
      constructor
      · simpa [visible, Reply.text?] using texts
      · simpa [Reply.text?] using single
    | false =>
      obtain ⟨text, shown⟩ := text_of_visible visible s
      constructor
      · simpa [visible, shown, Session.turns] using texts
      · simpa [shown] using ⟨text_single shown, single⟩

theorem enter_ended (line : String) (s : Session) :
    (s.enter (String.ofList (endedLine '\r' line.toList.reverse))).reply = (s.enter line).reply ∧
    (s.enter (String.ofList (endedLine '\r' line.toList.reverse))).session =
      (s.enter line).session := by
  rcases endedLine_reverse '\r' line.toList with same | longer
  · rw [← same, String.ofList_toList]
    exact ⟨rfl, rfl⟩
  · generalize endedLine '\r' line.toList.reverse = cs at longer ⊢
    obtain rfl : line = String.ofList (cs ++ ['\r']) := by rw [← longer, String.ofList_toList]
    have blank : isBlankLine (String.ofList (cs ++ ['\r'])) = isBlankLine (String.ofList cs) := by
      simp [isBlankLine, show isWhiteSpace '\r' = true by decide]
    apply enter_alike
    rw [reading?, reading?, blank, lex_blank_end rfl cs]

theorem answers_joined (clean : ∀ line ∈ lines, '\n' ∉ line.toList) (s : Session) :
    s.answers ((textLines ("\n".intercalate lines).toList).map String.ofList) = s.answers lines := by
  induction lines generalizing s with
  | nil => rfl
  | cons line rest ih =>
    have first := clean line (List.mem_cons_self ..)
    cases rest with
    | nil =>
      have parts := splitFrom_run first '\r' [] []
      rw [List.append_nil, List.append_nil, splitFrom_end] at parts
      rw [String.intercalate_singleton, textLines, parts]
      -- an empty line at the end of a text is not one of its lines, but it has no answer either
      by_cases empty : line = ""
      · subst empty
        rfl
      · simp [empty]
    | cons next rest =>
      have parts := splitFrom_run first '\r' [] ('\n' :: ("\n".intercalate (next :: rest)).toList)
      rw [List.append_nil, splitFrom, if_pos rfl] at parts
      have text : ("\n".intercalate (line :: next :: rest)).toList =
          line.toList ++ '\n' :: ("\n".intercalate (next :: rest)).toList := by
        simp [String.intercalate_cons_cons]
      obtain ⟨reply, session⟩ := enter_ended line s
      rw [text, textLines, parts, List.map_cons, answers_cons, answers_cons s line, reply, session]
      exact congrArg _ (ih (fun other member => clean other (List.mem_cons_of_mem _ member)) _)

theorem join_dialogue (s : Session) (prompt : String) (lines : List String) {rest : List (List UInt8)}
    (stop : ∀ bytes ∈ rest.head?, ¬ IsUtf8 bytes) :
    String.join (s.dialogue prompt (lines.map (fun line => utf8 line.toList) ++ rest)) =
      String.join ((s.answers lines).map fun text => text ++ "\n" ++ prompt) := by
  induction lines generalizing s with
  | nil =>
    cases rest with
    | nil => rfl
    | cons bytes rest =>
      have failed := fromUTF8_eq_none_iff.mpr (stop bytes rfl)
      simp [Session.dialogue, Session.respond?, failed, Session.answers, Session.turns]
  | cons line lines ih =>
    have read := fromUTF8_utf8 line
    rw [List.map_cons, List.cons_append, Session.dialogue, answers_cons]
    simp only [Session.respond?, read, Option.map_some]
    cases (s.enter line).reply.text? <;> simp [ih]

structure Console where
  typed : List (List UInt8)
  written : List String

def Console.next? : StateM Console (Option (List UInt8)) := fun c =>
  (c.typed.head?, { c with typed := c.typed.tail })

def Console.write (text : String) : StateM Console Unit := fun c =>
  ((), { c with written := c.written ++ [text] })

theorem next_run (c : Console) :
    Console.next?.run c = pure (c.typed.head?, { c with typed := c.typed.tail }) := rfl

theorem write_run (text : String) (c : Console) :
    (Console.write text).run c = pure ((), { c with written := c.written ++ [text] }) := rfl

/-- What is written while lines are typed is the dialogue on them all. -/
theorem converse_written (s : Session) (prompt : String) {lines : List (List UInt8)} {limit : Nat}
    (room : lines.length < limit) (written : List String) :
    ((s.converse Console.next? Console.write prompt limit).run ⟨lines, written⟩).run.2.written =
      written ++ s.dialogue prompt lines := by
  induction lines generalizing limit s written with
  | nil =>
    obtain ⟨limit, rfl⟩ : ∃ n, limit = n + 1 := ⟨limit - 1, by omega⟩
    simp [Session.converse, next_run, Session.dialogue]
  | cons bytes lines ih =>
    obtain ⟨limit, rfl⟩ : ∃ n, limit = n + 1 := ⟨limit - 1, by omega⟩
    rw [Session.dialogue]
    cases answer : s.respond? prompt bytes with
    | none => simp [Session.converse, next_run, answer]
    | some told =>
      obtain ⟨text, after⟩ := told
      have rest := ih after (Nat.lt_of_succ_lt_succ room) (written ++ [text])
      rw [List.append_assoc] at rest
      simpa [Session.converse, next_run, write_run, answer] using rest

variable (file? : String → Option ByteArray) (input : List UInt8)

theorem output_expressions (some : lines ≠ []) :
    (Arguments.mk none false lines).output file? input =
      ⟨0, transcript "" (Session.fresh.answers lines), ""⟩ := by
  simp [Arguments.output, some, Output.ok, unlines, transcript]

theorem output_file {text : String}
    (content : file? path = some (utf8 text.toList).toByteArray) :
    (Arguments.mk (some path) false []).output file? input =
      ⟨0, transcript "" (Session.fresh.answers ((textLines text.toList).map String.ofList)), ""⟩ := by
  have read := fromUTF8_utf8 text
  simp [Arguments.output, content, fileLines?, read, Output.ok, unlines, transcript]

theorem output_unreadable {bytes : List UInt8} (content : file? path = some bytes.toByteArray)
    (unreadable : String.fromUTF8? bytes.toByteArray = none) :
    (Arguments.mk (some path) false []).output file? input = ⟨1, "", unreadableText path⟩ := by
  simp [Arguments.output, content, fileLines?, unreadable]

theorem output_interactive (quiet : Bool) {rest : List (List UInt8)}
    (split : byteLines input = lines.map (fun line => utf8 line.toList) ++ rest)
    (stop : ∀ bytes ∈ rest.head?, ¬ IsUtf8 bytes) :
    (Arguments.mk none quiet []).output file? input =
      ⟨0, transcript (if quiet then "" else ">> ") (Session.fresh.answers lines), ""⟩ := by
  unfold Arguments.output
  simp only [ne_eq, not_true_eq_false, ↓reduceIte, split, join_dialogue _ _ _ stop]
  rfl

/-- The arguments after `--`, a file and standard input without a prompt are answered alike, if they are
    the same lines, and a prompt is all that it adds. A file that is no text is not answered at all,
    standard input up to the first line that is no text. -/
theorem program_modes_agree {read : List String → Request} {path : String}
    (reads : ReadsModes read path) :
    (∀ (lines : List String) (file? : String → Option ByteArray) (input : List UInt8),
      let bytes := utf8 ("\n".intercalate lines).toList
      lines ≠ [] → (∀ line ∈ lines, '\n' ∉ line.toList) → file? path = some bytes.toByteArray →
      ∃ shown, Session.fresh.Shows lines shown ∧
        program read ("--" :: lines) file? input = ⟨0, transcript "" shown, ""⟩ ∧
        program read ["-f", path] file? input = ⟨0, transcript "" shown, ""⟩ ∧
        program read ["-q"] file? bytes = ⟨0, transcript "" shown, ""⟩ ∧
        program read [] file? bytes = ⟨0, transcript ">> " shown, ""⟩) ∧
    ∀ (bytes : List UInt8) (file? : String → Option ByteArray) (input : List UInt8),
      String.fromUTF8? bytes.toByteArray = none → file? path = some bytes.toByteArray →
      program read ["-f", path] file? input = ⟨1, "", unreadableText path⟩ ∧
      ∃ before line after shown,
        byteLines bytes = before.map (fun line => utf8 line.toList) ++ line :: after ∧
        String.fromUTF8? line.toByteArray = none ∧ Session.fresh.Shows before shown ∧
        program read ["-q"] file? bytes = ⟨0, transcript "" shown, ""⟩ ∧
        program read [] file? bytes = ⟨0, transcript ">> " shown, ""⟩ := by
  unfold program
  rw [reads.file, reads.quiet, reads.nothing]
  constructor
  · intro lines file? input bytes some clean content
    have split : byteLines bytes = ((textLines ("\n".intercalate lines).toList).map String.ofList).map
        (fun line => utf8 line.toList) ++ [] := by
      simp [bytes, byteLines_utf8, Function.comp_def]
    have typed (quiet : Bool) := output_interactive file? bytes quiet split (by simp)
    rw [answers_joined clean] at typed
    have file := output_file file? input content
    rw [answers_joined clean] at file
    have arguments := output_expressions file? input some
    rw [reads.expressions lines some]
    exact ⟨_, answers_shown .fresh lines, arguments, file, typed true, typed false⟩
  · intro bytes file? input unreadable content
    have bad : ¬ ∀ line ∈ byteLines bytes, IsUtf8 line := by
      intro valid
      exact fromUTF8_eq_none_iff.mp unreadable (isUtf8_of_lines [] valid)
    obtain ⟨before, line, after, split, worse⟩ := first_not_utf8 bad
    have typed (quiet : Bool) := output_interactive file? bytes quiet split (by simpa using worse)
    exact ⟨output_unreadable file? input content unreadable, before, line, after, _, split,
      fromUTF8_eq_none_iff.mpr worse, answers_shown .fresh before, typed true, typed false⟩

/-- A rejected line that ends with a carriage return, and a blank one; and a byte that begins no text. -/
theorem program_modes_agree_ending :
    let bytes := utf8 ("\n".intercalate ["(\r", " "]).toList
    let run := program Request.ofArguments
    ReadsModes Request.ofArguments "lines" ∧
    run ["--", "(\r", " "] (fun _ => none) [] = ⟨0, "ERROR\n", ""⟩ ∧
    run ["-f", "lines"] (fun _ => some bytes.toByteArray) [] = ⟨0, "ERROR\n", ""⟩ ∧
    run [] (fun _ => none) bytes = ⟨0, ">> ERROR\n>> ", ""⟩ ∧
    run ["-f", "lines"] (fun _ => some [255].toByteArray) [] = ⟨1, "", unreadableText "lines"⟩ := by
  intro bytes run
  have reads : ReadsModes Request.ofArguments "lines" := by
    constructor
    case expressions => exact fun lines _ => ofArguments_expressions lines
    all_goals rfl
  obtain ⟨shown, shows, arguments, file, -, typed⟩ :=
    (program_modes_agree reads).1 ["(\r", " "] (fun _ => some bytes.toByteArray) [] (by simp)
      (by decide) rfl
  have unreadable := ((program_modes_agree reads).2 [255] (fun _ => some [255].toByteArray) []
    (by decide) rfl).1
  have read : Expr.ofTokens (lex "(\r") = .error ⟨.unexpectedEnd, 2⟩ := by
    rw [lex, scan_start, ofTokens_eq]
    rfl
  have visible : isBlankLine "(\r" = false := by decide
  have blank : isBlankLine " " = true := by decide
  obtain rfl : shown = ["ERROR"] := by
    have texts : shown.map some = ["ERROR"].map some := by
      rw [shows.texts]
      simp [visible, blank, Session.turns, enter_rejected visible read, Reply.text?, rejectedText]
    exact List.map_injective_iff.mpr (Option.some_injective _) texts
  exact ⟨reads, arguments, file, typed, unreadable⟩

end Calculator
