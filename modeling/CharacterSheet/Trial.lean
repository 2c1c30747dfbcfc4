import CharacterSheet.Calculation

/-!
Contract: trial runs of formulas and transforms, without any graph.

In a trial, each listed stat has one reply for all of its nodes and every other stat
has no value. No transform is in force. A trial keeps a list of the nodes that were
read.
-/

namespace CharacterSheet

/-- A trial: the replies of stats, and what was read so far. -/
structure Trial where
  replies : List (StatId × Reply)
  reads : List (StatId × Stage × PathId) := []

namespace Trial

/-- The reply for a stat: the first that is listed for it. -/
def reply (trial : Trial) (stat : StatId) : Reply :=
  match trial.replies.find? (·.1 = stat) with
  | some listed => listed.2
  | none => .ok none

def interpreter : Interpreter Trial where
  answer
    | .node stat stage path, trial =>
        some (trial.reply stat.id,
          { trial with reads := trial.reads ++ [(stat.id, stage, path.id)] })
    | .contribution _, trial => some (.ok none, trial)
  transforms _ _ _ _ := []
  record _ trial := trial

theorem interpreter_answers (query : Query) (trial : Trial) :
    (interpreter.answer query trial).isSome := by
  cases query <;> rfl

/-- Run a plan and list what it read. -/
def run (replies : List (StatId × Reply)) (plan : Plan (Option Value)) :
    Reply × List (StatId × Stage × PathId) :=
  let (reply, trial) :=
    (plan.run interpreter { replies }).get (Plan.run_isSome interpreter_answers plan _)
  (reply, trial.reads)

/-- A node that was read, with its path. -/
def readText (read : StatId × Stage × PathId) : String :=
  read.1.text ++ "." ++ read.2.1.text ++ "[" ++ read.2.2.text ++ "]"

end Trial
end CharacterSheet
