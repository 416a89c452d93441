import SlangScript.Grammar.Statement
import SlangScript.Run.Execute
import SlangScript.Token.Scanner

/-!
Running of source texts: what is wrong with a text is reported first, and then the statements that
could be read are executed.
-/

namespace SlangScript

namespace Machine

/-- The machine after a text to its diagnostics. -/
def note (m : Machine) (text : String) : Machine := { m with err := m.err ++ text }

def runText (m : Machine) (source : String) : Except Fault Unit × Machine :=
  let parsed := parse (tokenize source)
  (m.note parsed.report).run parsed.statements

/-- The machine with its steps counted anew. -/
def resetSteps (m : Machine) : Machine := { m with steps := 0 }

/-- The machine without what was printed on it. -/
def cleared (m : Machine) : Machine := { m with out := "", err := "" }

end Machine

/-- Reads an expression from the front of a source text, and leaves what comes after it. -/
def parseExpression (source : String) : Except Failure (Node Int) :=
  ((Parse.expression Parse.depthLimit).run.run (.ofTokens (tokenize source))).1

end SlangScript
