import TreeExport.Dump.Run
import TreeExport.Proofs.Dump.Worlds
import TreeExport.Proofs.Source.Yields

/-!
# Taking turns is a run

`Dump.takeRounds` lets the parties act in turns.  Whatever world it comes to is reached by some
order of steps (`Job.Reaches.takeRounds`), so what is said of every order holds of it.
-/

namespace TreeExport

variable {σ : Type} [RecordSource σ] {job : Job σ} {assured : Prop} {files₀ : Files}
  {actions : List Action} {log : List (Nat × Record)} {world : World σ} {time : Moment}

theorem Job.Reaches.takeActions (turns : List Action)
    (reached : job.Reaches assured files₀ actions log world)
    (steady : assured → Program.Steady time (Dump.takeActions job turns world.dump) world.files) :
    ∃ actions log, job.Reaches assured files₀ actions log
      ⟨((Dump.takeActions job turns world.dump).run time world.files).1,
        ((Dump.takeActions job turns world.dump).run time world.files).2⟩ := by
  induction turns generalizing actions log world with
  | nil => exact ⟨actions, log, reached⟩
  | cons action turns ih =>
    cases possible : world.dump.step? job action with
    | none =>
      simp only [Dump.takeActions, possible] at steady ⊢
      exact ih reached steady
    | some program =>
      simp only [Dump.takeActions, possible, bind, Program.run_andThen, Program.steady_andThen]
        at steady ⊢
      exact ih (reached.step (.mk time possible fun sure => (steady sure).1))
        fun sure => (steady sure).2

/-- What turns come to is reached by steps. -/
theorem Job.Reaches.takeRounds (fuel : Nat)
    (reached : job.Reaches assured files₀ actions log world)
    (steady : assured → Program.Steady time (Dump.takeRounds job fuel world.dump) world.files) :
    ∃ actions log, job.Reaches assured files₀ actions log
      ⟨((Dump.takeRounds job fuel world.dump).run time world.files).1,
        ((Dump.takeRounds job fuel world.dump).run time world.files).2⟩ := by
  induction fuel generalizing actions log world with
  | zero => exact ⟨actions, log, reached⟩
  | succ fuel ih =>
    cases returned : world.dump.result? with
    | some result =>
      simp only [Dump.takeRounds, returned]
      exact ⟨actions, log, reached⟩
    | none =>
      simp only [Dump.takeRounds, returned, bind, Program.run_andThen, Program.steady_andThen]
        at steady ⊢
      obtain ⟨taken, taking, round⟩ := reached.takeActions _ fun sure => (steady sure).1
      exact ih round fun sure => (steady sure).2

/-! ## A small job -/

namespace Job

/-- A node, and one that is deleted. -/
def fewRecords : List Record :=
  [.node "/a" [("title", .string "first")], { Record.node "/b" [] with deleted := true }]

/-- A job with little memory, some workers, and few records. -/
def small (workers : Nat) : Job Source where
  settings :=
    let total := 256 * Memory.mebibyte
    let reserve := Memory.sortKeyReserve total (workers + 1) 25
    { batchBytes := 4 * Memory.mebibyte
      batchDocuments := 10000
      queueCapacity := 32
      workers := workers
      budget :=
        { total := total
          buffers := workers + 1
          bufferBytes := Memory.limitToBuffer ((total - reserve) / (workers + 1))
          sortKeyReserve := reserve
          entriesPerBuffer := max (reserve / Memory.sortKeyBytes) 1 }
      statisticsSeconds := 30
      graceSeconds := 30 }
  source := .predefined { lists := [fewRecords] }
  directory := "store"
  extraction := ⟨fun _ => true, .passthrough⟩

theorem small_stands : (small 2).settings.Stands :=
  ⟨{ workers := 2, workingMebibytes := 256 }, 0, by decide +kernel⟩

theorem small_yields (workers : Nat) :
    RecordSource.Yields (small workers).request (small workers).source [.ofRecords fewRecords] none :=
  .batch rfl (.ended rfl)

/-- The files of the small job once its store is opened in a tree that holds nothing. -/
def smallFiles : Files where
  entries := [(["store", "segments"], .directory), (["store"], .directory)]

theorem smallFiles_opened : (Store.Writer.openAt "store").runOn ⟨0, 0⟩ {} =
    (.ok { directory := "store" }, smallFiles) := by
  decide +kernel

theorem small_opens (workers : Nat) : (small workers).Reaches True {} [] []
    ⟨.start (small workers) { directory := "store" } ⟨0, 0⟩, smallFiles⟩ :=
  .opened ⟨0, 0⟩ ⟨0, 0⟩ smallFiles_opened

/-- The parties of the small job act in turns. -/
def smallTurns (workers rounds : Nat) : Program (Dump Source) :=
  Dump.takeRounds (small workers) rounds
    (.start (small workers) { directory := "store" } ⟨0, 0⟩)

/-- What becomes of the small job after some rounds. -/
def smallWorld (workers rounds : Nat) : World Source :=
  ⟨((smallTurns workers rounds).run ⟨0, 0⟩ smallFiles).1,
    ((smallTurns workers rounds).run ⟨0, 0⟩ smallFiles).2⟩

theorem small_reaches (workers rounds : Nat)
    (steady : Program.Steady ⟨0, 0⟩ (smallTurns workers rounds) smallFiles) :
    ∃ actions log, (small workers).Reaches True {} actions log (smallWorld workers rounds) :=
  (small_opens workers).takeRounds rounds fun _ => steady

omit [RecordSource σ] in
theorem exists_of_result?_any (dump : Dump σ)
    (ended : (dump.result?.any fun result => result.toBool) = true) :
    ∃ result, dump.coordinator.phase = .returned (.ok result) := by
  unfold Dump.result? at ended
  split at ended
  next outcome returned =>
    cases outcome with
    | ok result => exact ⟨result, returned⟩
    | error cause => cases ended
  next => cases ended

/-- The small job ends well. -/
theorem small_ends : ∃ actions log result,
    (small 2).Reaches True {} actions log (smallWorld 2 60) ∧
      (smallWorld 2 60).dump.coordinator.phase = .returned (.ok result) := by
  obtain ⟨actions, log, reached⟩ := small_reaches 2 60 (by decide +kernel)
  obtain ⟨result, returned⟩ := exists_of_result?_any (smallWorld 2 60).dump (by decide +kernel)
  exact ⟨actions, log, result, reached, returned⟩

theorem small_alone_stands : (small 1).settings.Stands :=
  ⟨{ workers := 1, workingMebibytes := 256 }, 0, by decide +kernel⟩

/-- The small job ends well with one worker, too. -/
theorem small_alone_ends : ∃ actions log result,
    (small 1).Reaches True {} actions log (smallWorld 1 60) ∧
      (smallWorld 1 60).dump.coordinator.phase = .returned (.ok result) := by
  obtain ⟨actions, log, reached⟩ := small_reaches 1 60 (by decide +kernel)
  obtain ⟨result, returned⟩ := exists_of_result?_any (smallWorld 1 60).dump (by decide +kernel)
  exact ⟨actions, log, result, reached, returned⟩

end Job

end TreeExport
