/-
**The command runs the library.**

The command runs its script in a session of its own, with the standard streams for a console.  That
run is the one which a session in memory gives, if this has the lines of standard input for its
input: whatever the machine says appears as a line of standard output, and the end of the run
decides the exit code and what is written about a failure.

Main definitions:

* `Session.Over` — two sessions are the same but for their consoles, which are related;
* `Buffer.Mirrors` — a console in memory and a terminal that have shown the same and have the same
  lines to come;
* `CommandLine.librarySession` — the session in memory in which a script is run.

Main results:

* `Session.over_alike` — **machines cannot tell consoles apart that answer alike**;
* `Buffer.Mirrors.emit`, `Buffer.Mirrors.read` — so do a console in memory and a terminal;
* `CommandLine.invoke_eq_library` — **an invocation reports what the library run comes to**.
-/

import AccMachine.CommandLine.Invocation
import AccMachine.Proofs.InputBytes
import AccMachine.Proofs.TrimmedInput

set_option relaxedAutoImplicit false
set_option autoImplicit false

namespace AccMachine

/-! ### Sessions over related consoles -/

namespace Session

/-- The sessions are the same but for their logs and their consoles, and these are related. -/
structure Over {κ κ' : Type} (R : κ → κ' → Prop) (s : Session κ) (t : Session κ') : Prop where
  shelf : t.shelf = s.shelf
  files : t.files = s.files
  console : R s.console t.console
  tracer : t.tracer = s.tracer

variable {κ κ' : Type} {R : κ → κ' → Prop} {s : Session κ} {t : Session κ'}

/-- The sheet is written in the same way. -/
theorem Over.writeSheet (h : Over R s t) :
    s.writeSheet.1 = t.writeSheet.1 ∧ Over R s.writeSheet.2 t.writeSheet.2 := by
  unfold Session.writeSheet
  rw [h.tracer]
  cases s.tracer.mode with
  | off | debug => exact ⟨rfl, h⟩
  | dryRun =>
      have hwrite : (t.note (.writingSheet s.tracer.path)).files.write s.tracer.path s.tracer.sheet
          = (s.note (.writingSheet s.tracer.path)).files.write s.tracer.path s.tracer.sheet :=
        congrArg (fun files => FileTree.write files s.tracer.path s.tracer.sheet) h.files
      dsimp only
      rw [hwrite]
      cases (s.note (.writingSheet s.tracer.path)).files.write s.tracer.path s.tracer.sheet with
      | error fault => exact ⟨rfl, h.shelf, h.files, h.console, h.tracer⟩
      | ok files => exact ⟨rfl, h.shelf, rfl, h.console, h.tracer⟩

variable [Console κ] [Console κ']

/-- **Machines cannot tell consoles apart that answer alike**: they give the same answer to every
output and hand out the same lines, and stay related. -/
theorem over_alike
    (hemit : ∀ (a : κ) (b : κ') (output : Output), R a b →
      (Console.emit a output).1 = (Console.emit b output).1 ∧
        R (Console.emit a output).2 (Console.emit b output).2)
    (hread : ∀ (a : κ) (b : κ'), R a b →
      (Console.read a).1 = (Console.read b).1 ∧ R (Console.read a).2 (Console.read b).2) :
    Alike (Over R) where
  emit := by
    intro s t output _ h
    obtain ⟨hanswer, hR⟩ := hemit s.console t.console output h.console
    exact ⟨hanswer, h.shelf, h.files, hR, h.tracer⟩
  trace := by
    intro s t words accumulator h
    simp only [Session.trace, h.tracer]
    cases s.tracer.mode with
    | off => exact ⟨rfl, h⟩
    | debug =>
        obtain ⟨hanswer, hR⟩ := hemit s.console t.console (.trace (traceEntry words accumulator))
          h.console
        exact ⟨hanswer, h.shelf, h.files, hR, h.tracer⟩
    | dryRun => exact ⟨rfl, h.shelf, h.files, h.console, rfl⟩
  readLine := by
    intro s t h
    obtain ⟨hanswer, hR⟩ := hread s.console t.console h.console
    exact ⟨hanswer, h.shelf, h.files, hR, h.tracer⟩
  source := by
    intro s t reference h
    simp only [Session.source, h.shelf, h.files]
  noteLeft := fun _ h => ⟨h.shelf, h.files, h.console, h.tracer⟩
  noteRight := fun _ h => ⟨h.shelf, h.files, h.console, h.tracer⟩

end Session

namespace Machine

variable {κ κ' : Type} {R : κ → κ' → Prop}

theorem close_over (m : Machine) {s : Session κ} {t : Session κ'} (h : Session.Over R s t)
    (ending : Ending) :
    (m.close s ending).1 = (m.close t ending).1 ∧
      Session.Over R (m.close s ending).2 (m.close t ending).2 := by
  cases ending with
  | finished | returned | failed _ => exact ⟨rfl, h⟩
  | halted =>
      obtain ⟨hanswer, hsheet⟩ := h.writeSheet
      simp only [close]
      rcases hs : s.writeSheet with ⟨answer, s'⟩
      rcases ht : t.writeSheet with ⟨answer', t'⟩
      rw [hs, ht] at hanswer hsheet
      obtain rfl : answer = answer' := hanswer
      split
      · cases answer with
        | error fault => exact ⟨rfl, hsheet⟩
        | ok _ => exact ⟨rfl, hsheet⟩
      · exact ⟨rfl, h⟩

variable [Console κ] [Console κ']

/-- A run comes to the same end over consoles that answer alike. -/
theorem run_over (alike : Session.Alike (Session.Over R)) {m m' : Machine} {fuel : Nat}
    {s s' : Session κ} {t : Session κ'} {ending : Ending} (h : Session.Over R s t)
    (hrun : m.run fuel s = some (ending, m', s')) :
    ∃ t', m.run fuel t = some (ending, m', t') ∧ Session.Over R s' t' := by
  obtain ⟨e, s₁, hrunFor, hclose⟩ := run_iff_runFor.1 hrun
  rcases Chain.runFor_alike alike fuel (Chain.start m) h with
    ⟨hnone, -⟩ | ⟨e', m₁, s₂, t₁, hs, ht, hkept⟩
  · rw [hnone] at hrunFor
    cases hrunFor
  · rw [hrunFor] at hs
    cases hs
    obtain ⟨hending, hkept'⟩ := m'.close_over hkept e
    rw [hclose] at hending hkept'
    exact ⟨_, run_iff_runFor.2 ⟨e, t₁, ht, Prod.ext hending.symm rfl⟩, hkept'⟩

end Machine

/-! ### A console in memory and a terminal -/

/-- The terminal has no colours; it has shown the outputs of the console in memory, each on a line
of its own, and the lines of input that the console has left are the pieces of the text that is left
on the terminal's input. -/
structure Buffer.Mirrors (b : Buffer) (t : Terminal) : Prop where
  plain : t.coloured = false
  input : ∃ text, b.input = (Text.pieces text).map String.ofList ∧ t.stdin = Text.encode text
  output : t.stdout = String.join (b.renderedLines.map (· ++ "\n"))

namespace Buffer.Mirrors

variable {b : Buffer} {t : Terminal}

theorem emit (h : b.Mirrors t) (o : Output) :
    (Console.emit b o).1 = (Console.emit t o).1 ∧
      (Console.emit b o).2.Mirrors (Console.emit t o).2 := by
  refine ⟨rfl, h.plain, h.input, ?_⟩
  change t.stdout ++ o.line t.coloured ++ "\n" = _
  have hlines : (Console.emit b o).2.renderedLines = b.renderedLines ++ [o.render] := by
    rw [renderedLines, outputs_emit, List.map_append]
    rfl
  rw [hlines, h.plain, h.output, Output.line_plain, List.map_append, String.join_append,
    String.append_assoc]
  simp [String.join]

theorem read (h : b.Mirrors t) :
    (Console.read b).1 = (Console.read t).1 ∧
      (Console.read b).2.Mirrors (Console.read t).2 := by
  obtain ⟨input, outputs⟩ := b
  obtain ⟨stdin, stdout, coloured⟩ := t
  obtain ⟨rfl, ⟨text, rfl, rfl⟩, houtput⟩ := h
  have hprompt : stdout ++ promptText false = stdout := String.append_empty
  cases htext : Text.encode text with
  | nil =>
      obtain rfl := Text.encode_eq_nil_iff.1 htext
      change _ = Except.ok none ∧ Mirrors _ ⟨[], stdout ++ promptText false, false⟩
      rw [hprompt]
      exact ⟨rfl, rfl, ⟨[], rfl, rfl⟩, houtput⟩
  | cons byte bytes =>
      have hcut := Terminal.cutLine_encode text
      rw [htext] at hcut
      cases hpieces : Text.pieces text with
      | nil =>
          have hflatten := Text.flatten_pieces text
          rw [hpieces] at hflatten
          subst hflatten
          cases htext
      | cons piece later =>
          have hlater := Text.pieces_flatten_tail text
          rw [hpieces] at hcut hlater
          simp only [Console.read, Terminal.read, hcut, hprompt, List.headD_cons,
            Text.decodeText_encode]
          exact ⟨rfl, rfl, ⟨later.flatten, congrArg _ hlater.symm, rfl⟩, houtput⟩

end Buffer.Mirrors

theorem Buffer.mirrors_alike : Session.Alike (Session.Over Buffer.Mirrors) :=
  Session.over_alike (fun _ _ o h => h.emit o) (fun _ _ h => h.read)

/-! ### Invocations -/

namespace CommandLine

/-- The session in memory in which the script of an invocation is run by the library: programs are
read from the files, and the given lines are the input. -/
def librarySession (options : Options) (files : FileTree) (input : List String) :
    Session Buffer where
  shelf := .files
  files := files
  console := ⟨input, #[]⟩
  tracer := ⟨TraceMode.ofFlags options.debug options.dryRun, "", "dryrun.txt"⟩

/-- At the beginning, the terminal has the text that is cut into the lines of the session in
memory. -/
theorem session_over (options : Options) (files : FileTree) (stdin : String) :
    Session.Over Buffer.Mirrors
      (librarySession options files ((Text.pieces stdin.toList).map String.ofList))
      (session options files stdin.toUTF8.data.toList false) :=
  ⟨rfl, rfl, ⟨rfl, ⟨stdin.toList, rfl, Text.encode_eq stdin⟩, rfl⟩, rfl⟩

/-- The script is loaded and run in a session as a root is by the library. -/
theorem runScript_of_run {κ : Type} [Console κ] {s s₁ s' : Session κ} {script : String}
    {program : Program} {fuel : Nat} {ending : Ending} {m' : Machine}
    (hload : s.load script = (.ok program, s₁))
    (hrun : (Machine.ofProgram program).run fuel s₁ = some (ending, m', s')) :
    (runScript fuel script : StateM (Session κ) _).run s = (some (.ofEnding ending), s') := by
  rw [runScript, Session.bind_run ((Session.load_run s script).trans hload)]
  exact Session.bind_run (Session.of_answered hrun)

/-- The arguments that ask for a script to be run with these switches. -/
def Options.arguments (options : Options) : List String :=
  (if options.debug then ["--debug"] else []) ++ (if options.dryRun then ["--dry-run"] else []) ++
    ["--", options.script]

/-- Every script can be asked for, with every combination of the switches. -/
theorem ofArguments_arguments {options : Options} (h : options.script ≠ "") :
    Request.ofArguments options.arguments = .run options := by
  obtain ⟨script, debug, dryRun⟩ := options
  have hdebug : "--debug".toList = ['-', '-', 'd', 'e', 'b', 'u', 'g'] := by decide +kernel
  have hdry : "--dry-run".toList = ['-', '-', 'd', 'r', 'y', '-', 'r', 'u', 'n'] := by
    decide +kernel
  have hscript : (script = "") = False := eq_false h
  cases debug <;> cases dryRun <;>
    simp [Options.arguments, Request.ofArguments, Request.read, Request.readPaths,
      Parsed.addArgument, hdebug, hdry, Parsed.addLong, Parsed.addDebug, Parsed.addDryRun,
      Parsed.addScript, Parsed.finish, hscript]

/-- **The command runs the library.**  Let the arguments of an invocation ask for a script to be
run, with any of the switches, let standard input be a text, and let standard output be no terminal.
The library runs the script in memory, on the same files and in the mode of the switches, and has
for its input the pieces of the text, cut behind each line feed; each may also be given without its
line end.  If the script is loaded and the run ends, then so does the invocation, and it reports
this: on standard output the outputs of the run, each on a line of its own; the exit code 1 and the
message of the failure if the run failed, and the exit code 0 and no message otherwise; and the
files, the sheet of a dry run among them, as the run leaves them. -/
theorem invoke_eq_library {arguments : List String} {options : Options}
    (harguments : Request.ofArguments arguments = .run options) {files : FileTree}
    {stdin : String} {input : List String}
    (hinput : List.Forall₂ Text.IsLineOf ((Text.pieces stdin.toList).map String.ofList) input)
    {m m' : Machine} {s s' : Session Buffer} {ending : Ending} {fuel : Nat}
    (hload : (librarySession options files input).loadMachine options.script = (.ok m, s))
    (hrun : m.run fuel s = some (ending, m', s')) :
    invoke fuel arguments files stdin.toUTF8.data.toList false = some
      { exitCode := if ending.failure?.isSome then 1 else 0
        stdout := String.join (s'.console.renderedLines.map (· ++ "\n"))
        stderr := some (match ending.failure? with
          | some failure => "Runtime error: " ++ failure.message ++ "\n"
          | none => "")
        files := s'.files } := by
  obtain ⟨program, hprogram, rfl⟩ : ∃ program,
      (librarySession options files input).load options.script = (.ok program, s) ∧
        m = Machine.ofProgram program := by
    unfold Session.loadMachine at hload
    split at hload
    · cases hload
    · next program s₀ hprogram =>
        cases hload
        exact ⟨program, hprogram, rfl⟩
  have hleft : s.console.input = input := by
    unfold Session.load at hprogram
    split at hprogram
    · cases hprogram
    · cases hprogram
      rfl
  -- The run with the pieces for input comes to the same end as the run with the lines.
  have hretrimmed :
      s.Retrimmed (s.withInput ((Text.pieces stdin.toList).map String.ofList)) :=
    ⟨_, rfl, by rw [hleft, Text.map_trimmed_of_forall₂ hinput]⟩
  obtain ⟨_, hpieces, lines, rfl, -⟩ := Machine.run_retrimmed hretrimmed hrun
  -- The run on the terminal comes to the same end as the run with the pieces.
  have hload' := (librarySession options files input).load_mapConsole
    (Buffer.withInput ((Text.pieces stdin.toList).map String.ofList)) options.script
  rw [hprogram] at hload'
  obtain ⟨hanswer, hover⟩ :=
    Buffer.mirrors_alike.load options.script (session_over options files stdin)
  rcases hterminal : (session options files stdin.toUTF8.data.toList false).load options.script with
    ⟨answer, t⟩
  rw [hterminal] at hanswer hover
  obtain rfl : .ok program = answer := (congrArg Prod.fst hload').symm.trans hanswer
  have hover' : Session.Over Buffer.Mirrors
      (s.withInput ((Text.pieces stdin.toList).map String.ofList)) t := by
    have hs : ((librarySession options files ((Text.pieces stdin.toList).map String.ofList)).load
        options.script).2 = s.withInput ((Text.pieces stdin.toList).map String.ofList) :=
      congrArg Prod.snd hload'
    rwa [hs] at hover
  obtain ⟨t', hrun', hleft'⟩ := Machine.run_over Buffer.mirrors_alike hover' hpieces
  have hinvoke : invoke fuel arguments files stdin.toUTF8.data.toList false =
      some ((Reply.ofEnding ending).report t'.console.stdout t'.files) := by
    simp only [invoke, harguments, runScript_of_run hterminal hrun']
  rw [hinvoke]
  have hstdout : t'.console.stdout = String.join (s'.console.renderedLines.map (· ++ "\n")) :=
    hleft'.console.output
  have hfiles : t'.files = s'.files := hleft'.files
  cases ending with
  | finished | halted | returned | failed _ =>
      simp only [Reply.report, Reply.ofEnding, hstdout, hfiles, String.append_empty]
      rfl

/-- The working directory with a script that reads two numbers and says the first one. -/
def echoFiles : FileTree :=
  .install .empty "echo.acc" (.file "IN\nOUT\nIN\nHALT".toUTF8)

/-- The session in memory has the two lines of input without their line ends. -/
def echoSession : Session Buffer := librarySession ⟨"echo.acc", false, true⟩ echoFiles ["7", " x"]

/-- The second line of standard input is no number, and the failure shows it trimmed. -/
theorem invoke_eq_library_echo :
    (invoke 9 ["--dry-run", "echo.acc"] echoFiles "7\r\n x\n".toUTF8.data.toList false).map
        (fun report => (report.exitCode, report.stdout, report.stderr)) =
      some (1, "< 7\n", some ("Runtime error: echo.acc, instruction 2 `IN`: " ++
        "Input \"x\" is not a number: invalid digit found in string\n")) := by
  have hrun : (match echoSession.loadMachine "echo.acc" with
      | (.error _, _) => none
      | (.ok m, s) => (m.run 9 s).map fun answer =>
        (answer.1.failure?.map Failure.message, answer.2.2.console.renderedLines)) =
      some (some ("echo.acc, instruction 2 `IN`: " ++
        "Input \"x\" is not a number: invalid digit found in string"), ["< 7"]) := by
    decide +kernel
  have hinput : List.Forall₂ Text.IsLineOf
      ((Text.pieces "7\r\n x\n".toList).map String.ofList) ["7", " x"] :=
    .cons (Or.inr (Or.inr (by decide +kernel))) (.cons (Or.inr (Or.inl (by decide +kernel))) .nil)
  have harguments : Request.ofArguments ["--dry-run", "echo.acc"] =
      .run ⟨"echo.acc", false, true⟩ := by decide +kernel
  rcases hload : echoSession.loadMachine "echo.acc" with ⟨failure | m, s⟩ <;> rw [hload] at hrun
  · cases hrun
  · obtain ⟨⟨ending, m', s'⟩, h, hanswer⟩ := Option.map_eq_some_iff.1 hrun
    simp only [Prod.mk.injEq] at hanswer
    obtain ⟨hmessage, houtput⟩ := hanswer
    obtain ⟨failure, hfailure, hmessage⟩ := Option.map_eq_some_iff.1 hmessage
    rw [invoke_eq_library harguments hinput hload h, hfailure, houtput]
    simp only [Option.map_some, hmessage, Option.isSome_some, if_true]
    decide +kernel

end CommandLine

end AccMachine
