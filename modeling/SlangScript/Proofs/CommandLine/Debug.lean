import SlangScript.CommandLine.Prompt
import SlangScript.Proofs.CommandLine.Chain

/-!
The option for debugging only observes, as long as the tree of the program can be drawn: a script
does the same with it, behind a trace of its tokens and its tree. The program of a tree beyond the
height that is drawn does not run.
-/

namespace SlangScript

/-! ## Arguments -/

namespace Command

/-- The command with the option for debugging. -/
def debugged : Command → Command
  | .usage complaint exit => .usage complaint exit
  | .prompt options => .prompt { options with debug := true }
  | .script options path => .script { options with debug := true } path

theorem ofPaths_debug (cap : Option Int) (args : List String) :
    ofPaths { debug := true, cap } args = (ofPaths { cap } args).debugged := by
  unfold ofPaths
  split
  · rfl
  · split <;> rfl

/-- The option for debugging may stand anywhere. -/
theorem ofArgs_debug {before after : List String} (absent : "--debug" ∉ before ++ after) :
    ofArgs (before ++ "--debug" :: after) = (ofArgs (before ++ after)).debugged := by
  have present : (before ++ "--debug" :: after).contains "--debug" = true := by simp
  have plain : (before ++ after).contains "--debug" = false := by simpa using absent
  have erased : (before ++ "--debug" :: after).erase "--debug" = before ++ after := by
    rw [List.erase_append_right _ fun member => absent (List.mem_append_left _ member),
      List.erase_cons_head]
  have help : ((before ++ "--debug" :: after).contains "-h" ||
      (before ++ "--debug" :: after).contains "--help") =
        ((before ++ after).contains "-h" || (before ++ after).contains "--help") := by simp
  unfold ofArgs
  rw [present, plain, erased, List.erase_of_not_mem absent, help]
  split
  · rfl
  · cases takeCap? (before ++ after) with
    | none => rfl
    | some taken => exact ofPaths_debug taken.1 taken.2

theorem options_of_ofPaths {options options' : Options} {args : List String} {path : String}
    (h : ofPaths options args = .script options' path) : options' = options := by
  unfold ofPaths at h
  split at h
  · cases h
  · split at h <;> cases h
    rfl

theorem debug_of_ofArgs {args : List String} {options : Options} {path : String}
    (h : ofArgs args = .script options path) : options.debug = args.contains "--debug" := by
  unfold ofArgs at h
  split at h
  · cases h
  · split at h
    · cases h
    · rw [options_of_ofPaths h]

end Command

/-! ## Traces -/

namespace Machine

/-- The trace of a text: its tokens and its tree. -/
def trace (source : String) : String :=
  tokenTrace (tokenize source) ++ "AST:\n" ++ treeTrace (parse (tokenize source)).statements

/-- The tree of a text is not too high to be drawn. -/
def Drawable (source : String) : Prop :=
  Node.heightAll (parse (tokenize source)).statements ≤ Node.heightLimit

/-- What can be drawn is what the stack has room for. -/
theorem isSome_drawAll_iff (source : String) :
    (Node.drawAll 1 (parse (tokenize source)).statements Node.heightLimit).isSome ↔
      Drawable source := by
  rw [(Node.takes_drawAll 1 _).isSome_iff, Node.framesAll_describing, Drawable]

theorem attempt_eq (m : Machine) (action : Run Unit) : m.attempt action =
    ((outcome action m).1.mapError .stopped, (outcome action m).2) := rfl

theorem runTraced_plain (rounds : Nat) (m : Machine) (source : String) :
    m.runTraced false source (execute rounds) =
      ((m.runTextWithin rounds source).1.mapError .stopped, (m.runTextWithin rounds source).2) := rfl

/-- Where the tree is drawn, the run is the plain one behind the trace. -/
theorem runTraced_drawn (rounds : Nat) {m : Machine} {source : String} (fresh : m.out = "")
    (drawable : Drawable source) : m.runTraced true source (execute rounds) =
      ((m.runTextWithin rounds source).1.mapError .stopped,
        (m.runTextWithin rounds source).2.behind (trace source) "") := by
  have start : ((m.note (parse (tokenize source)).report).say
      (tokenTrace (tokenize source) ++ "AST:\n")).say
        (treeTrace (parse (tokenize source)).statements) =
      (m.note (parse (tokenize source)).report).behind (trace source) "" := by
    simp [say, note, behind, trace, fresh, String.append_assoc]
  rw [runTraced, if_pos rfl]
  refine (if_pos drawable).trans ?_
  rw [attempt_eq, start, execute_behind]
  rfl

/-- A tree that is too high ends the run before it starts. -/
theorem runTraced_undrawn (rounds : Nat) (m : Machine) {source : String} (high : ¬Drawable source) :
    m.runTraced true source (execute rounds) = (.error .untraceable,
      (m.note (parse (tokenize source)).report).say (tokenTrace (tokenize source) ++ "AST:\n")) := by
  rw [runTraced, if_pos rfl]
  exact if_neg high

end Machine

/-- The debugged outcome is the plain one behind a trace; the diagnostics are the same unless there
was trouble. -/
structure Observes (trace : String) (plain debugged : Outcome) : Prop where
  exit : debugged.exit = plain.exit
  uncaught : debugged.uncaught = plain.uncaught
  stdout : debugged.stdout = trace ++ plain.stdout
  stderr : plain.exit = 0 → debugged.stderr = plain.stderr

open Machine

theorem observes_behind (trace : String) (result : Except Trouble Unit) (m : Machine) :
    Observes trace (.ofRun false (result, m)) (.ofRun true (result, m.behind trace "")) := by
  cases result with
  | ok => exact ⟨rfl, rfl, rfl, fun _ => String.empty_append⟩
  | error trouble => exact ⟨rfl, rfl, rfl, nofun⟩

theorem length_treeTrace_pos {ι : Type} (statements : List (Node ι)) :
    0 < (treeTrace statements).length := by
  rw [treeTrace, String.length_append]
  exact Nat.lt_add_left _ (by decide)

/-- A run is observed exactly if its tree can be drawn. -/
theorem observes_iff (rounds : Nat) {m : Machine} (fresh : m.out = "") (source : String) :
    Observes (trace source) (.ofRun false (m.runTraced false source (execute rounds)))
      (.ofRun true (m.runTraced true source (execute rounds))) ↔ Drawable source := by
  constructor
  · intro observes
    refine Classical.byContradiction fun high => ?_
    -- Without the tree what is printed is too short.
    have stdout := observes.stdout
    rw [runTraced_undrawn rounds m high] at stdout
    have printed : m.out ++ (tokenTrace (tokenize source) ++ "AST:\n") = trace source ++ _ := stdout
    have length := congrArg String.length printed
    have tree := length_treeTrace_pos (parse (tokenize source)).statements
    rw [fresh, trace] at length
    simp only [String.length_append, String.length_empty] at length
    omega
  · intro drawable
    rw [runTraced_drawn rounds fresh drawable, runTraced_plain]
    exact observes_behind ..

/-! ## Scripts -/

/-- At the path there is a text that can be read and is not blank. -/
inductive Readable (read : String → Except ReadError (List UInt8)) (path : String) : String → Prop
  | mk {octets text} : '\x00' ∉ path.toList → read path = .ok octets →
      Text.Utf8.decode octets = .ok text → Text.trim (Text.unifyBreaks text) ≠ [] →
      Readable read path (String.ofList (Text.unifyBreaks text))

variable {read : String → Except ReadError (List UInt8)} {path source : String}

theorem Readable.outcome (h : Readable read path source) (rounds : Nat) (options : Options)
    (input : List Char) : (Command.script options path).outcomeWithin rounds read input =
      .ofRun options.debug
        (options.machine.runTraced options.debug source (execute rounds)) := by
  cases h with
  | mk noNul found decoded notBlank =>
      simp only [Command.outcomeWithin, runScript, List.contains_iff_mem, if_neg noNul, found, decoded,
        scriptOutcome, List.isEmpty_iff, if_neg notBlank]

theorem Readable.observes_iff (h : Readable read path source) (rounds : Nat) (cap : Option Int)
    (input : List Char) :
    Observes (trace source) ((Command.script { cap } path).outcomeWithin rounds read input)
      ((Command.script { debug := true, cap } path).outcomeWithin rounds read input) ↔
        Drawable source := by
  rw [h.outcome, h.outcome]
  exact SlangScript.observes_iff rounds rfl source

/-! ## A chain of zeros -/

theorem drawable_zeros_iff (count : Nat) :
    Drawable (String.ofList (zerosText count)) ↔ count + 4 ≤ Node.heightLimit := by
  rw [Drawable, heightAll_zerosText]

/-- Reading a file of ASCII characters. -/
def readAscii (text : List Char) : String → Except ReadError (List UInt8) :=
  fun _ => .ok (text.map fun c => UInt8.ofNat c.toNat)

theorem readable_zeros (count : Nat) {path : String} (noNul : '\x00' ∉ path.toList) :
    Readable (readAscii (zerosText count)) path (String.ofList (zerosText count)) := by
  have small : ∀ c ∈ zerosAlphabet, c.toNat < 0x80 := by simp [zerosAlphabet]
  have noReturn : '\r' ∉ zerosAlphabet := by decide
  have whole : Text.unifyBreaks (zerosText count) = zerosText count :=
    Text.unifyBreaks_of_not_mem fun member => noReturn (zerosText_subset count member)
  have digit : '3' ∈ zerosText count := List.mem_append_left _ (by decide)
  have notBlank : Text.trim (Text.unifyBreaks (zerosText count)) ≠ [] := by
    rw [whole, ne_eq, Text.trim_eq_nil_iff]
    intro blank
    exact absurd (blank _ digit) (by decide)
  have decoded := Text.Utf8.decode_ascii fun c member => small c (zerosText_subset count member)
  have found : readAscii (zerosText count) path = .ok _ := rfl
  have readable := Readable.mk noNul found decoded notBlank
  rwa [whole] at readable

/-- A chain of zeros is printed at any length without the option for debugging. -/
theorem outcome_zeros (rounds count : Nat) {path : String} (noNul : '\x00' ∉ path.toList)
    (input : List Char) :
    (Command.script {} path).outcomeWithin rounds (readAscii (zerosText count)) input =
      { stdout := "0\n" } := by
  rw [(readable_zeros count noNul).outcome, runTraced_plain, runTextWithin_zerosText]
  · rfl
  · rfl

/-! ## The option for debugging -/

/-- With the option for debugging, wherever it stands, a script does what it does without, behind a
trace, exactly if the tree of its program is not too high to be drawn. -/
theorem debug_observes_iff (readable : Readable read path source) {before after : List String}
    {cap : Option Int} (asked : Command.ofArgs (before ++ after) = .script { cap } path)
    (input : List Char) :
    (∀ rounds, Observes (trace source)
        ((Command.ofArgs (before ++ after)).outcomeWithin rounds read input)
        ((Command.ofArgs (before ++ "--debug" :: after)).outcomeWithin rounds read input) ↔
          Drawable source) ∧
      (Observes (trace source) ((Command.ofArgs (before ++ after)).outcome read input)
        ((Command.ofArgs (before ++ "--debug" :: after)).outcome read input) ↔
          Drawable source) := by
  have absent : "--debug" ∉ before ++ after := by
    simpa using (Command.debug_of_ofArgs asked).symm
  rw [Command.ofArgs_debug absent, asked]
  exact ⟨fun rounds => readable.observes_iff rounds cap input, readable.observes_iff _ cap input⟩

theorem debug_observes_zeros :
    Readable (readAscii (zerosText 2)) "zeros.faysal" (String.ofList (zerosText 2)) ∧
    Command.ofArgs (["--max-steps", "9"] ++ ["zeros.faysal"]) =
      .script { cap := some 9 } "zeros.faysal" ∧
    Observes (trace (String.ofList (zerosText 2)))
      ((Command.ofArgs (["--max-steps", "9"] ++ ["zeros.faysal"])).outcome
        (readAscii (zerosText 2)) [])
      ((Command.ofArgs (["--max-steps", "9"] ++ "--debug" :: ["zeros.faysal"])).outcome
        (readAscii (zerosText 2)) []) := by
  have readable := readable_zeros 2 (show '\x00' ∉ "zeros.faysal".toList by decide)
  have asked : Command.ofArgs (["--max-steps", "9"] ++ ["zeros.faysal"]) =
      .script { cap := some 9 } "zeros.faysal" := by decide
  have drawable : Drawable (String.ofList (zerosText 2)) :=
    (drawable_zeros_iff 2).mpr (by decide)
  exact ⟨readable, asked, (debug_observes_iff readable asked []).2.mpr drawable⟩

/-- A flat chain of additions that is read and runs, but does not with the option for debugging. -/
theorem debug_breaks_zeros :
    Readable (readAscii (zerosText 1000)) "zeros.faysal" (String.ofList (zerosText 1000)) ∧
    Command.ofArgs ["zeros.faysal"] = .script {} "zeros.faysal" ∧
    ((Command.ofArgs ["zeros.faysal"]).outcome (readAscii (zerosText 1000)) [] =
      { stdout := "0\n" }) ∧
    ¬Observes (trace (String.ofList (zerosText 1000)))
      ((Command.ofArgs ["zeros.faysal"]).outcome (readAscii (zerosText 1000)) [])
      ((Command.ofArgs ["--debug", "zeros.faysal"]).outcome (readAscii (zerosText 1000)) []) := by
  have noNul : '\x00' ∉ "zeros.faysal".toList := by decide
  have plain : Command.ofArgs ["zeros.faysal"] = .script {} "zeros.faysal" := by decide
  have debugged : Command.ofArgs ["--debug", "zeros.faysal"] =
      .script { debug := true } "zeros.faysal" := by decide
  have high : ¬Drawable (String.ofList (zerosText 1000)) := by
    rw [drawable_zeros_iff]
    decide
  have readable := readable_zeros 1000 noNul
  rw [plain, debugged]
  refine ⟨readable, rfl, outcome_zeros _ 1000 noNul [], ?_⟩
  exact fun observes => high ((readable.observes_iff _ none []).mp observes)

end SlangScript
