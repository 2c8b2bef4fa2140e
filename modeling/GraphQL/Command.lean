import GraphQL.Command.Input
import GraphQL.Command.Statistics

/-! Commands: checking files and collecting statistics on them. -/
namespace GraphQL.Command

/-- What a command has to say, and whether it succeeded. -/
structure Report where
  success : Bool
  output : Option String
  errors : Option String
  deriving DecidableEq

namespace Report

/-- A report of success. -/
def succeed (output : String) : Report := ⟨true, some s!"✅ {output}", none⟩

/-- A report of failure: what went wrong in detail, and on the whole. -/
def fail (details : List String) (summary : String) : Report :=
  ⟨false, none, some ("\n".intercalate (details ++ [s!"❌ {summary}"]))⟩

/-- What went wrong in detail, and on the whole, in a report that is one of failure then. -/
def withErrors (r : Report) (details : List String) (summary : String) : Report :=
  { r with success := false, errors := (fail details summary).errors }

end Report

/-- The report on checked files. -/
def checkReport (others : Nat) (loaded : List (Except LoadFault Document)) :
    Except FormatFault Report := do
  let failed ← faultReports loaded
  let total := loaded.length
  if failed.isEmpty then
    let definitions := ((documents loaded).flatMap (·.definitions)).length
    return .succeed (s!"All GraphQL parsed successfully:\n  * Checked {total} files.\n" ++
      s!"  * Skipped {others} non-graphql files.\n  * Parsed {definitions} definitions.")
  else return .fail failed s!"{failed.length} of {total} GraphQL files failed to parse."

/-- What has become of some files: the visitors that have walked over the documents in them, how
many those are, and the reports of the files that gave none. -/
structure Tally where
  seats : List (Seat Node Nat Statistics Unit)
  walked : Nat
  failed : List String

namespace Tally

/-- Before the first file. -/
def start : Tally := ⟨Statistics.collectors, 0, []⟩

/-- Takes one more file into account. One that fails does not keep others from being counted. -/
def add (t : Tally) : Except LoadFault Document → Except FormatFault Tally
  | .ok d => .ok { t with seats := Statistics.survey t.seats d, walked := t.walked + 1 }
  | .error e => do
    let report ← e.report
    return { t with failed := t.failed ++ [report] }

/-- The totals as text. -/
def totals (t : Tally) : String :=
  s!"Walked {t.walked} documents:\n{(Statistics.ofSeats t.seats).render}"

end Tally

/-- The report on the statistics of files, which are taken one by one. -/
def statsReport (loaded : List (Except LoadFault Document)) : Except FormatFault Report := do
  let tally ← loaded.foldlM Tally.add Tally.start
  let report := Report.succeed tally.totals
  if tally.failed.isEmpty then return report
  else
    return report.withErrors tally.failed s!"{tally.failed.length} GraphQL files failed to parse."

/-- The report of an action on loaded files. -/
def Action.report (others : Nat) (loaded : List (Except LoadFault Document)) :
    Action → Except FormatFault Report
  | .check => checkReport others loaded
  | .stats => statsReport loaded

/-- Carries out an action. -/
def Action.run (action : Action) (selection : Selection) (place : Workplace) :
    Except FormatFault Report :=
  match selection.find place.tree with
  | .error fault => .ok (.fail [] fault.message)
  | .ok found => action.report found.others (found.load place.path)

end GraphQL.Command
