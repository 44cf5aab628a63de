import Resumption.Jobs
import Resumption.Script.Meaning
import Resumption.Script.Reading

/-
  This file defines the transcript of a script: for each
  stage, how it ended and what it logged.

  Key definitions include:
    * `Script.runStage`
    * `Script.transcript`
    * `Script.answer`
-/

namespace Resumption

namespace Script

------------------------------------------------------------
-- Stages
------------------------------------------------------------

/- How deep calls may nest. -/
def callDepth : Nat :=
  12000

/- How many rounds a flat loop may take. -/
def loopRounds : Nat :=
  10000000

/- The caller of a script. -/
def caller : Caller :=
  .ofDepth loopRounds callDepth

/- What a stage does: nothing comes of the jobs. -/
def Stage.run : Stage → Run (Option Value)
  | .flush => do
      Jobs.flush caller
      return none
  | .evaluate e => some <$> (e.meaning []).run caller

/- How a stage ended. -/
def pictureEnd
    (s : Session) :
    Except Value (Option Value) → String × Datum
  | .ok (some v) => ("value", s.picture v)
  | .ok none => ("flushed", .bool true)
  | .error e => ("threw", s.picture e)

/-
  Run a stage: its picture, and the session with an empty
  log.  A stage that does not finish changes nothing.
-/
def runStage
    (stage : Stage)
    (s : Session) : Datum × Session :=
  match stage.run s with
  | some (ended, s') =>
      (.record
        [pictureEnd s' ended, ("log", .list s'.log.toList)],
       { s' with log := #[] })
  | none => (.record [("exhausted", .bool true)], s)

------------------------------------------------------------
-- Transcripts
------------------------------------------------------------

/- Run all stages, one after the other. -/
def runStages : List Stage → Session → List Datum
  | [], _ => []
  | stage :: rest, s =>
      let (picture, s) := runStage stage s
      picture :: runStages rest s

/- The transcript of a script, which ends with its jobs. -/
def transcript (stages : List Stage) : Datum :=
  .record
    [("steps", .list
      (runStages (stages ++ [.flush]) Session.empty))]

/- Refuse an input. -/
def refusal (reason : String) : Datum :=
  .record [("error", .str reason)]

/- The answer to an input: the transcript of the script in it. -/
def answerTo (input : Datum) : Datum :=
  match input.field? "op", input.field? "code" with
  | some (.str "script"), some (.list code) =>
      match Stage.listOfDatum? code with
      | some stages => transcript stages
      | none => refusal "BadProgram"
  | _, _ => refusal "BadInput"

end Script

end Resumption
