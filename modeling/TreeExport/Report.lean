import TreeExport.Json.Text

/-!
# The report of a run

Settings, timings and counts by name, each name once; what is recorded again replaces what was
there.
-/

namespace TreeExport

/-- What a run records. -/
structure Report where
  config : List (String × String) := []
  timings : List (String × String) := []
  metrics : List (String × Nat) := []
  deriving Repr, DecidableEq

namespace Report

/-- Records a setting. -/
def addConfig (report : Report) (key value : String) : Report :=
  { report with config := Keyed.insert key value report.config }

/-- Records a timing. -/
def addTiming (report : Report) (key value : String) : Report :=
  { report with timings := Keyed.insert key value report.timings }

/-- Records a count. -/
def addMetric (report : Report) (key : String) (value : Nat) : Report :=
  { report with metrics := Keyed.insert key value report.metrics }

/-- Records settings in turn. -/
def addConfigs (report : Report) (entries : List (String × String)) : Report :=
  entries.foldl (fun report entry => report.addConfig entry.1 entry.2) report

/-- One section of the text of a report. -/
def sectionText (title : String) (entries : List (String × String)) : String :=
  s!"{title}:\n" ++ String.join (entries.map fun (key, value) => s!"  {key}: {value}\n")

/-- The report as text: a line to each name, section by section. -/
def render (report : Report) : String :=
  sectionText "Configuration" report.config ++ sectionText "Timings" report.timings ++
    sectionText "Metrics" (report.metrics.map fun (key, value) => (key, toString value))

/-- The report as a JSON object. -/
def toJson (report : Report) : Json :=
  .object
    [("config", .object (report.config.map fun (key, value) => (key, .string value))),
      ("timings", .object (report.timings.map fun (key, value) => (key, .string value))),
      ("metrics", .object (report.metrics.map fun (key, value) =>
        (key, .number (.whole value))))]

end Report

end TreeExport
