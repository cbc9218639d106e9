import TreeExport.Proofs.Store.Manifests

/-!
# What is appended is read back

`Store.Writer.Calls` holds of what becomes of a writer when runs are appended to it, one after the
other, whatever they hold; where appending fails, the writer is as it was and its partial file stays
until the next run takes its name.  Closing the writer then yields a store from which just the runs
are read back that were accepted (`Store.Writer.Calls.round_trip`).
-/

namespace TreeExport.Store

open Files (home Overwrites)

namespace Writer

variable {time : Moment} {writer : Writer} {files : Files} {runs : List (List StoredEntry)}

/-! ## A run that is refused -/

/-- Entries that go down are written up to where they do, and then refused. -/
theorem writeEntries_stops {segment : Segment} {previous : Option String} {place : Location}
    {content : Bytes} {front rest : List StoredEntry} {last next : StoredEntry}
    (leads : Files.Leads files.working segment.path place)
    (there : files.get? place = some (.file content)) (run : IsRun (front ++ [last]))
    (above : ∀ path ∈ previous, ∀ entry ∈ front ++ [last], path ≤ entry.path)
    (below : next.path < last.path)
    (steady : Program.Steady time
      (writeEntries segment previous (front ++ last :: next :: rest)).run files) :
    ∃ after, (writeEntries segment previous (front ++ last :: next :: rest)).runOn time files =
        (.error (Refusal.toError (.outOfOrder next.path last.path)), after) ∧
      after.get? place = some (.file (content ++ StoredEntry.encodeAll (front ++ [last]))) ∧
      Overwrites (· = place) files after := by
  induction front generalizing files segment previous content with
  | nil =>
    rw [List.nil_append] at steady run above ⊢
    rw [writeEntries_cons (run.short last List.mem_cons_self)
      fun path same => above path same last List.mem_cons_self] at steady ⊢
    obtain ⟨_, after, extended, changes⟩ :=
      FileTask.achieves_change.of_steady (FileTask.steady_of_bind steady).1
    obtain ⟨old, was, now, overwrites⟩ := Files.extend_ok leads changes
    cases there.symm.trans was
    refine ⟨after, ?_, ?_, overwrites⟩
    · rw [FileTask.runOn_bind_of_ok extended, writeEntries_below below]
      rfl
    · rw [now, List.nil_append, StoredEntry.encodeAll_cons, StoredEntry.encodeAll_nil,
        List.append_nil]
  | cons entry front ih =>
    rw [List.cons_append] at steady run above ⊢
    rw [writeEntries_cons (run.short entry List.mem_cons_self)
      fun path same => above path same entry List.mem_cons_self] at steady ⊢
    obtain ⟨first, later⟩ := FileTask.steady_of_bind steady
    obtain ⟨_, middle, extended, changes⟩ := FileTask.achieves_change.of_steady first
    obtain ⟨old, was, now, overwrites⟩ := Files.extend_ok leads changes
    cases there.symm.trans was
    have runLater : IsRun (front ++ [last]) :=
      ⟨run.sorted.tail, fun other member => run.short other (List.mem_cons_of_mem _ member)⟩
    have aboveLater : ∀ path ∈ some entry.path, ∀ other ∈ front ++ [last], path ≤ other.path := by
      rintro path same other member
      cases same
      exact run.sorted.head_le member
    have leadsLater : Files.Leads middle.working
        (⟨segment.path, segment.entries + 1, segment.bytes + entry.bytes.length⟩ : Segment).path
        place := overwrites.working ▸ leads
    obtain ⟨after, refused, filled, further⟩ :=
      ih leadsLater now runLater aboveLater (later extended)
    refine ⟨after, ?_, ?_, overwrites.trans further⟩
    · rw [FileTask.runOn_bind_of_ok extended]
      exact refused
    · rw [filled, List.cons_append, StoredEntry.encodeAll_cons, List.append_assoc]

/-- A run that is not sorted is refused.  The file of its segment holds what stands before the
descent, and the segments that the writer keeps are as they were. -/
theorem append_unsorted {run : List StoredEntry} (keeps : writer.Keeps files runs)
    (short : ∀ entry ∈ run, entry.IsShort) (unsorted : ¬ SortedBy StoredEntry.path run)
    (steady : Program.Steady time (writer.append run).run files) :
    ∃ front last next rest after, run = front ++ last :: next :: rest ∧ next.path < last.path ∧
      (writer.append run).runOn time files =
        (.error (Refusal.toError (.outOfOrder next.path last.path)), after) ∧
      writer.Keeps after runs ∧
      after.Holds (segmentsPath writer.directory) (segmentName (runs.length + 1))
        (front ++ [last]) ∧
      Overwrites (MergePlan.Inside files.working (segmentsPath writer.directory)) files after := by
  obtain ⟨front, last, next, rest, rfl, below, sorted⟩ := exists_below_of_not_sortedBy unsorted
  have shortFront : ∀ entry ∈ front ++ [last], entry.IsShort := by
    intro entry member
    refine short entry ?_
    rcases List.mem_append.mp member with early | late
    · exact List.mem_append_left _ early
    · exact List.mem_append_right _ (List.mem_singleton.mp late ▸ List.mem_cons_self)
  have number : Path.join (segmentsPath writer.directory) (segmentName (runs.length + 1)) =
      segmentPath writer.directory (writer.segments.length + 1) := by
    rw [keeps.length]
    rfl
  have leads := Files.leads_join files.working (segmentsPath writer.directory)
    (isName_segmentName (runs.length + 1))
  rw [number] at leads
  have notEmpty : (front ++ last :: next :: rest).isEmpty = false := by cases front <;> rfl
  unfold append at steady ⊢
  rw [notEmpty] at steady ⊢
  obtain ⟨first, later⟩ := FileTask.steady_of_bind steady
  obtain ⟨_, created, opened, changes⟩ := FileTask.achieves_change.of_steady first
  obtain ⟨fresh, early⟩ := Files.create_ok leads changes
  have leadsCreated : Files.Leads created.working
      (⟨segmentPath writer.directory (writer.segments.length + 1), 0, 0⟩ : Segment).path
      (home files.working (segmentsPath writer.directory) ++
        [segmentName (runs.length + 1)]) := by
    rw [early.working]
    exact leads
  obtain ⟨after, refused, filled, late⟩ := writeEntries_stops leadsCreated fresh
    ⟨sorted, shortFront⟩ (fun _ none => by cases none) below
    (FileTask.steady_of_bind (later opened)).1
  have both := early.trans late
  have inside : Overwrites (Files.AmongNames files.working (segmentsPath writer.directory)
      [segmentName (runs.length + 1)]) files after :=
    both.mono fun place same => ⟨_, List.mem_cons_self, same⟩
  refine ⟨front, last, next, rest, after, rfl, below, ?_, keeps.of_next inside, ?_,
    both.mono fun place same => ⟨_, same⟩⟩
  · have failed := FileTask.runOn_bind_of_error refused fun segment =>
      (pure (some segment,
        { writer with
          segments := writer.segments ++ [segment]
          appended := writer.appended + segment.entries }) : FileTask (Option Segment × Writer))
    exact (FileTask.runOn_bind_of_ok opened _).trans failed
  · unfold Files.Holds
    rw [both.working, filled, List.nil_append]

/-! ## Calls -/

/-- What a call of a writer appends, and what it answers. -/
structure Call where
  run : List StoredEntry
  answer : Except Error (Option Segment)

/-- The writer after a call, which is as it was where the call has failed. -/
def after (writer : Writer) : Except Error (Option Segment × Writer) → Writer
  | .ok (_, next) => next
  | .error _ => writer

/-- Calls of one writer, in order: what they append and answer, and what they come to.  The fan-in
may be set in between.  No operation on files fails. -/
inductive Calls (start : Writer) (files₀ : Files) : List Call → Writer → Files → Prop
  | opened : Calls start files₀ [] start files₀
  | fanIn {calls : List Call} {writer : Writer} {files : Files}
      (before : Calls start files₀ calls writer files) (fanIn : Nat) :
      Calls start files₀ calls (writer.setFanIn fanIn) files
  | append {calls : List Call} {writer : Writer} {files changed : Files}
      {outcome : Except Error (Option Segment × Writer)}
      (before : Calls start files₀ calls writer files) (time : Moment) (run : List StoredEntry)
      (steady : Program.Steady time (writer.append run).run files)
      (ran : (writer.append run).runOn time files = (outcome, changed)) :
      Calls start files₀ (calls ++ [⟨run, outcome.map Prod.fst⟩]) (writer.after outcome) changed

/-- The runs of some calls that are sorted and not empty. -/
def accepted (calls : List Call) : List (List StoredEntry) :=
  (calls.map Call.run).filter fun run => decide (SortedBy StoredEntry.path run ∧ run ≠ [])

theorem accepted_append (calls : List Call) (call : Call) :
    accepted (calls ++ [call]) = accepted calls ++ accepted [call] := by
  rw [accepted, List.map_append, List.filter_append]
  rfl

/-- The file of the next segment holds a part of a run. -/
def LeavesPart (files : Files) (directory : String) (number : Nat) (run : List StoredEntry) : Prop :=
  ∃ part, part <+: run ∧ files.Holds (segmentsPath directory) (segmentName number) part

/-- What some calls have come to: the writer keeps the runs that were accepted, just those calls have
failed whose run is not sorted, and after one of them its file is still there. -/
structure Traces (start : Writer) (calls : List Call) (writer : Writer) (files : Files) : Prop where
  directory : writer.directory = start.directory
  keeps : writer.Keeps files (accepted calls)
  ready : IsReady files start.directory
  refused : ∀ call ∈ calls,
    (∃ cause, call.answer = .error cause) ↔ ¬ SortedBy StoredEntry.path call.run
  part : ∀ earlier run cause, calls = earlier ++ [⟨run, .error cause⟩] →
    LeavesPart files start.directory ((accepted earlier).length + 1) run

variable {start : Writer} {files₀ : Files} {calls : List Call}

/-- One call more. -/
theorem Traces.append {changed : Files} {run : List StoredEntry}
    {outcome : Except Error (Option Segment × Writer)}
    (traces : Traces start calls writer files) (short : ∀ entry ∈ run, entry.IsShort)
    (steady : Program.Steady time (writer.append run).run files)
    (ran : (writer.append run).runOn time files = (outcome, changed)) :
    Traces start (calls ++ [⟨run, outcome.map Prod.fst⟩]) (writer.after outcome) changed := by
  have others {answer : Except Error (Option Segment)}
      (this : (∃ cause, answer = .error cause) ↔ ¬ SortedBy StoredEntry.path run) :
      ∀ call ∈ calls ++ [⟨run, answer⟩],
        (∃ cause, call.answer = .error cause) ↔ ¬ SortedBy StoredEntry.path call.run := by
    intro call member
    rcases List.mem_append.mp member with earlier | last
    · exact traces.refused call earlier
    · obtain rfl := List.mem_singleton.mp last
      exact this
  have still (overwrites : Overwrites
      (MergePlan.Inside files.working (segmentsPath writer.directory)) files changed) :
      IsReady changed start.directory :=
    traces.ready.of_overwrites overwrites
  by_cases sorted : SortedBy StoredEntry.path run
  · have noError {segment : Option Segment} : (∃ cause, (.ok segment : Except Error _) =
        .error cause) ↔ ¬ SortedBy StoredEntry.path run :=
      ⟨fun ⟨cause, same⟩ => (nomatch same), fun unsorted => absurd sorted unsorted⟩
    have noPart {segment : Option Segment} : ∀ earlier other cause,
        calls ++ [⟨run, (.ok segment : Except Error _)⟩] = earlier ++ [⟨other, .error cause⟩] →
          LeavesPart changed start.directory ((accepted earlier).length + 1) other := by
      intro earlier other cause same
      cases List.append_inj_right' same rfl
    by_cases nonempty : run = []
    · -- nothing is written for an empty run
      subst nonempty
      cases ran
      refine ⟨traces.directory, ?_, traces.ready, others noError, noPart⟩
      rw [accepted_append, show accepted [⟨[], _⟩] = [] by simp [accepted], List.append_nil]
      exact traces.keeps
    · obtain ⟨⟨segment, next⟩, last, done, keeps, directory, -, overwrites⟩ :=
        (achieves_append traces.keeps ⟨sorted, short⟩ nonempty).of_steady steady
      cases ran.symm.trans done
      refine ⟨directory.trans traces.directory, ?_, still overwrites, others noError, noPart⟩
      rw [accepted_append,
        show accepted [⟨run, _⟩] = [run] by simp [accepted, sorted, nonempty]]
      exact keeps
  · obtain ⟨front, last, next, rest, final, same, below, refused, keeps, holds, overwrites⟩ :=
      append_unsorted traces.keeps short sorted steady
    cases ran.symm.trans refused
    refine ⟨traces.directory, ?_, still overwrites, others ⟨fun _ => sorted, fun _ => ⟨_, rfl⟩⟩, ?_⟩
    · rw [accepted_append, show accepted [⟨run, _⟩] = [] by simp [accepted, sorted],
        List.append_nil]
      exact keeps
    · intro earlier other cause split
      obtain ⟨rfl, ends⟩ := List.append_inj' split rfl
      cases ends
      refine ⟨front ++ [last], ?_, ?_⟩
      · rw [same]
        exact ⟨next :: rest, by simp⟩
      · rw [← traces.directory]
        exact holds

/-- Whatever the calls, they come to what they should. -/
theorem Calls.traces (made : Calls start files₀ calls writer files)
    (fresh : start.segments = []) (nothing : start.appended = 0)
    (ready : IsReady files₀ start.directory)
    (short : ∀ call ∈ calls, ∀ entry ∈ call.run, entry.IsShort) :
    Traces start calls writer files := by
  induction made with
  | opened =>
    refine ⟨rfl, keeps_nil files₀ fresh nothing, ready,
      fun _ none => absurd none List.not_mem_nil, fun earlier run cause same => ?_⟩
    cases earlier <;> cases same
  | fanIn before fanIn ih =>
    have traces := ih short
    exact ⟨traces.directory, ⟨traces.keeps.paths, traces.keeps.holds, traces.keeps.sound,
      traces.keeps.nonempty, traces.keeps.appended⟩, traces.ready, traces.refused, traces.part⟩
  | append before time run steady ran ih =>
    have traces := ih fun call member => short call (List.mem_append_left _ member)
    exact traces.append (short ⟨run, _⟩ (List.mem_append_right _ List.mem_cons_self)) steady ran

theorem Calls.isProper (made : Calls start files₀ calls writer files)
    (proper : files₀.IsProper) : files.IsProper := by
  induction made with
  | opened => exact proper
  | fanIn before fanIn ih => exact ih
  | append before time run steady ran ih => exact FileTask.isProper_of_runOn ran ih

/-! ## The round trip -/

/-- Whatever is appended to a writer that has been opened, in whatever order: appending fails just if
the run is not sorted, and where it fails or the run is empty nothing is counted, although the file
of a run that has failed stays.  Closing succeeds; the store is then opened, verified, and read back
as the stable sort of the accepted runs, and the directory of segments is gone. -/
theorem Calls.round_trip {directory : String} {opening : Moment} {before : Files}
    (closing : Moment) (proper : before.IsProper)
    (opens : (openAt directory).runOn opening before = (.ok start, files₀))
    (made : Calls start files₀ calls writer files)
    (short : ∀ call ∈ calls, ∀ entry ∈ call.run, entry.IsShort)
    (steady : Program.Steady closing writer.close.run files) :
    (∀ call ∈ calls,
      (∃ cause, call.answer = .error cause) ↔ ¬ SortedBy StoredEntry.path call.run) ∧
    writer.segments.length = (accepted calls).length ∧
    writer.appended = (accepted calls).flatten.length ∧
    (∀ earlier run cause, calls = earlier ++ [⟨run, .error cause⟩] →
      LeavesPart files directory ((accepted earlier).length + 1) run) ∧
    ∃ manifest after, writer.close.runOn closing files = (.ok manifest, after) ∧
      manifest.entries = (accepted calls).flatten.length ∧
      manifest.segments = (accepted calls).length ∧
      (manifest.entries < 2 ^ 64 → closing.IsOfClock → ∀ time,
        (Reader.openAt directory).runOn time after = (.ok ⟨directory, manifest⟩, after)) ∧
      ∀ time,
        (Reader.entries ⟨directory, manifest⟩).runOn time after =
          (.ok ⟨dataPath directory, stableSort StoredEntry.path (accepted calls).flatten, none⟩,
            after) ∧
        (Reader.verify ⟨directory, manifest⟩).runOn time after = (.ok (), after) ∧
        after.get? (spot after.working directory "segments") = none := by
  obtain ⟨rfl, ready, -, keptProper, -⟩ := openAt_ok opens
  have traces := made.traces rfl rfl ready short
  have properNow := made.isProper (keptProper proper)
  have here : writer.directory = directory := traces.directory
  obtain ⟨manifest, after, closed, rfl, publishes, gone⟩ :=
    (achieves_close properNow (here ▸ traces.ready) traces.keeps).of_steady steady
  rw [here] at publishes gone
  have describes := traces.keeps.describes closing
  have shortAll : ∀ entry ∈ stableSort StoredEntry.path (accepted calls).flatten,
      entry.IsShort := (isRun_stableSort traces.keeps.sound).short
  refine ⟨traces.refused, traces.keeps.length, traces.keeps.appended, traces.part, _, after, closed,
    rfl, rfl, fun few shown time => ?_, fun time => ⟨publishes.reads shortAll rfl,
      publishes.verifies describes, gone⟩⟩
  exact publishes.opens (describes.isLegible (describes.count ▸ few) shown) describes

/-- Appends some runs at one time, whatever the calls answer. -/
def appendAll (time : Moment) : List (List StoredEntry) → List Call × Writer × Files →
    List Call × Writer × Files
  | [], made => made
  | run :: rest, (calls, writer, files) =>
    let ran := (writer.append run).runOn time files
    appendAll time rest
      (calls ++ [⟨run, ran.1.map Prod.fst⟩], writer.after ran.1, ran.2)

/-- No operation fails while some runs are appended. -/
def SteadyAll (time : Moment) : List (List StoredEntry) → Writer → Files → Prop
  | [], _, _ => True
  | run :: rest, writer, files =>
    Program.Steady time (writer.append run).run files ∧
      SteadyAll time rest (writer.after ((writer.append run).runOn time files).1)
        ((writer.append run).runOn time files).2

instance decidableSteadyAll (time : Moment) : (runs : List (List StoredEntry)) →
    (writer : Writer) → (files : Files) → Decidable (SteadyAll time runs writer files)
  | [], _, _ => .isTrue trivial
  | run :: rest, writer, files =>
    have := decidableSteadyAll time rest (writer.after ((writer.append run).runOn time files).1)
      ((writer.append run).runOn time files).2
    inferInstanceAs (Decidable (_ ∧ _))

theorem Calls.appendAll (made : Calls start files₀ calls writer files)
    (appended : List (List StoredEntry)) (steady : SteadyAll time appended writer files) :
    Calls start files₀ (Writer.appendAll time appended (calls, writer, files)).1
      (Writer.appendAll time appended (calls, writer, files)).2.1
      (Writer.appendAll time appended (calls, writer, files)).2.2 := by
  induction appended generalizing calls writer files with
  | nil => exact made
  | cons run rest ih => exact ih (made.append time run steady.1 rfl) steady.2

/-- A run that is refused, and one that takes the name of its segment. -/
def fewRuns : List (List StoredEntry) :=
  [[⟨"/b", []⟩, ⟨"/a", []⟩], [⟨"/c", [0x31]⟩]]

/-- The files of a store that has just been opened in a tree that holds nothing. -/
def fewFiles : Files where
  entries := [(["store", "segments"], .directory), (["store"], .directory)]

/-- What becomes of the runs. -/
def fewCalls : List Call × Writer × Files :=
  appendAll ⟨0, 0⟩ fewRuns ([], { directory := "store" }, fewFiles)

theorem few_opens :
    (openAt "store").runOn ⟨0, 0⟩ {} = (.ok { directory := "store" }, fewFiles) := by
  decide +kernel

theorem few_made : Calls { directory := "store" } fewFiles fewCalls.1 fewCalls.2.1 fewCalls.2.2 :=
  Calls.opened.appendAll fewRuns (by decide +kernel)

theorem few_short : ∀ call ∈ fewCalls.1, ∀ entry ∈ call.run, entry.IsShort := by
  decide +kernel

theorem few_closes : Program.Steady ⟨0, 0⟩ fewCalls.2.1.close.run fewCalls.2.2 := by
  decide +kernel

theorem accepted_few : accepted fewCalls.1 = [[⟨"/c", [0x31]⟩]] := by
  decide +kernel

theorem Calls.round_trip_few : ∃ manifest after,
    fewCalls.2.1.close.runOn ⟨0, 0⟩ fewCalls.2.2 = (.ok manifest, after) ∧
      manifest.entries = 1 ∧ manifest.segments = 1 := by
  have proper : Files.IsProper {} := ⟨nofun, nofun⟩
  have readBack := Calls.round_trip ⟨0, 0⟩ proper few_opens few_made few_short
  obtain ⟨-, -, -, -, manifest, after, closed, count, segments, -⟩ := readBack few_closes
  rw [accepted_few] at count segments
  exact ⟨manifest, after, closed, count, segments⟩

end Writer

end TreeExport.Store
