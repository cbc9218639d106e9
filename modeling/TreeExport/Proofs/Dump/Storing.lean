import TreeExport.Proofs.Dump.Smooth
import TreeExport.Proofs.Pool.Contents
import TreeExport.Proofs.Store.Writing

/-!
# What sort-and-store accounts for

Sort-and-store takes the full buffers in the order of their queue and appends the stable sort of
each to the store as a run of its own (`Storer.Moves.accounts`).  It fails only if it is stopped or if
an operation on files does not succeed.
-/

namespace TreeExport.Storer

/-- The entries of the buffer that sort-and-store has in hand, if it has one. -/
def hand (storer : Storer) : List (List StoredEntry) :=
  match storer.phase with
  | .acquiring call => call.carried
  | .storing buffer => [buffer.batch.contents]
  | .returning call => call.carried
  | _ => []

/-- The buffer that sort-and-store has in hand is as it should be. -/
structure IsSound (capacity maxEntries : Nat) (storer : Storer) : Prop where
  call : ∀ call, storer.call? = some call → call.IsSound capacity maxEntries storer.cancelled
  buffer : ∀ buffer, storer.phase = .storing buffer → buffer.IsFilled capacity maxEntries

/-- Sort-and-store has appended the stable sort of each of some lists of entries to the store, unless
it was stopped or an operation on files has failed. -/
structure Accounts (capacity maxEntries : Nat) (assured : Prop) (files : Files) (storer : Storer)
    (stored : List (List StoredEntry)) : Prop where
  sound : storer.IsSound capacity maxEntries
  keeps : storer.IsWell → storer.writer.Keeps files (stored.map (stableSort StoredEntry.path))
  entries : storer.IsWell → storer.entries = stored.flatten.length
  blame : ∀ cause, storer.phase = .failed cause → assured → cause.IsStop storer.cancelled

variable {capacity maxEntries : Nat} {assured : Prop} {time : Moment} {storer after : Storer}
  {pool poolAfter : Pool} {files changed : Files} {stored : List (List StoredEntry)}

/-- Sort-and-store that has done nothing yet has stored nothing. -/
theorem accounts_start {writer : Store.Writer} (none : writer.segments = [])
    (nothing : writer.appended = 0) :
    Accounts capacity maxEntries assured files { writer := writer } [] := by
  refine ⟨⟨fun call busy => ?_, nofun⟩, fun _ => ?_, fun _ => rfl, nofun⟩
  · cases busy
    trivial
  · exact Store.Writer.keeps_nil _ none nothing

theorem Accounts.cancel (accounts : storer.Accounts capacity maxEntries assured files stored) :
    Accounts capacity maxEntries assured files { storer with cancelled := true } stored where
  sound := ⟨fun call here => (accounts.sound.call call here).cancel, accounts.sound.buffer⟩
  keeps := accounts.keeps
  entries := accounts.entries
  blame cause phase sure := (accounts.blame cause phase sure).cancel

/-- Sort-and-store that only goes on accounts for all as before. -/
theorem Accounts.quiet (accounts : storer.Accounts capacity maxEntries assured files stored)
    (runs : storer.IsWell) (well : after.IsWell) (writer : after.writer = storer.writer)
    (entries : after.entries = storer.entries) (sound : after.IsSound capacity maxEntries) :
    after.Accounts capacity maxEntries assured files stored := by
  refine ⟨sound, fun _ => ?_, fun _ => ?_, fun cause failed => absurd failed (well cause)⟩
  · rw [writer]
    exact accounts.keeps runs
  · rw [entries]
    exact accounts.entries runs

theorem Accounts.fails {cause : Error} {left : Files} {storedAfter : List (List StoredEntry)}
    (phase : after.phase = .failed cause) (blame : assured → cause.IsStop after.cancelled) :
    after.Accounts capacity maxEntries assured left storedAfter := by
  refine ⟨⟨fun call busy => ?_, fun buffer here => ?_⟩, fun well => absurd phase (well cause),
    fun well => absurd phase (well cause), fun other failed => ?_⟩
  · rw [call?, phase] at busy
    cases busy
  · cases phase.symm.trans here
  · cases phase.symm.trans failed
    exact blame

/-- Storing a buffer appends the stable sort of its entries, and it does succeed if all operations on
files do. -/
theorem achieves_store {buffer : Buffer}
    (accounts : storer.Accounts capacity maxEntries assured files stored)
    (phase : storer.phase = .storing buffer) :
    (storer.store buffer).Achieves time files fun after changed =>
      after.Accounts capacity maxEntries assured changed (stored ++ [buffer.batch.contents]) ∧
        after.writer.directory = storer.writer.directory ∧
        after.writer.checkpoint = storer.writer.checkpoint ∧
        after.hand = [] ∧
        Files.Overwrites (MergePlan.Inside files.working
          (Store.segmentsPath storer.writer.directory)) files changed := by
  have runs : storer.IsWell := fun cause failed => by cases phase.symm.trans failed
  obtain ⟨entries, packs, nonempty⟩ := accounts.sound.buffer buffer phase
  have run : IsRun (stableSort StoredEntry.path entries) :=
    ⟨sortedBy_stableSort entries, fun entry member => packs.isShort entry (mem_stableSort.mp member)⟩
  have some : stableSort StoredEntry.path entries ≠ [] := by
    intro none
    have lengths := congrArg List.length none
    rw [length_stableSort] at lengths
    exact nonempty (List.eq_nil_of_length_eq_zero lengths)
  have listed : buffer.batch.sort.storedEntries = .ok (stableSort StoredEntry.path entries) :=
    packs.storedEntries_sort
  unfold store
  simp only [listed]
  refine (Store.Writer.achieves_append (accounts.keeps runs) run some).bind ?_
  rintro ⟨segment, writer⟩ changed ⟨keeps, directory, checkpoint, overwrites⟩
  refine FileTask.achieves_pure ⟨⟨⟨?_, nofun⟩, fun _ => ?_, fun _ => ?_, nofun⟩, directory,
    checkpoint, rfl, overwrites⟩
  · intro call busy
    cases busy
    exact packs.clear
  · rw [packs.contents, List.map_append, List.map_singleton]
    exact keeps
  · rw [packs.contents, List.flatten_append, List.flatten_singleton, List.length_append,
      ← accounts.entries runs, ← length_stableSort entries]

/-- Whatever sort-and-store does, it spoils no buffer. -/
theorem Moves.isSound (step : Moves assured time storer pool files after poolAfter changed)
    (sound : storer.IsSound capacity maxEntries) (pools : pool.IsSound capacity maxEntries) :
    after.IsSound capacity maxEntries ∧ poolAfter.IsSound capacity maxEntries := by
  cases step with
  | fetching phase kind advance =>
    have carried := sound.call _ (call?_of_acquiring phase)
    have next := advance.isSound pools carried (by rw [kind]; exact nofun) (by rw [kind]; exact nofun)
    refine ⟨⟨fun call busy => ?_, nofun⟩, advance.pool_isSound pools carried⟩
    cases busy
    exact next
  | fetched phase kind advance =>
    have carried := sound.call _ (call?_of_acquiring phase)
    have next := advance.isSound pools carried (by rw [kind]; exact nofun) (by rw [kind]; exact nofun)
    refine ⟨⟨nofun, fun buffer here => ?_⟩, advance.pool_isSound pools carried⟩
    cases here
    exact next
  | ended phase kind advance | fetchFailed phase kind advance =>
    exact ⟨⟨nofun, nofun⟩, advance.pool_isSound pools (sound.call _ (call?_of_acquiring phase))⟩
  | @stored buffer _ _ phase done =>
    obtain ⟨entries, answer, -, -, rfl⟩ := store_ok done
    obtain ⟨packed, packs, -⟩ := sound.buffer buffer phase
    refine ⟨⟨fun call busy => ?_, nofun⟩, pools⟩
    cases busy
    exact packs.clear
  | storeFailed => exact ⟨⟨nofun, nofun⟩, pools⟩
  | returning phase kind advance =>
    have carried := sound.call _ (call?_of_returning phase)
    have next := advance.isSound pools carried (by rw [kind]; exact nofun) (by rw [kind]; exact nofun)
    refine ⟨⟨fun call busy => ?_, nofun⟩, advance.pool_isSound pools carried⟩
    cases busy
    exact next
  | returned phase kind advance =>
    refine ⟨⟨fun call busy => ?_, nofun⟩,
      advance.pool_isSound pools (sound.call _ (call?_of_returning phase))⟩
    cases busy
    trivial
  | returnFailed phase kind advance =>
    exact ⟨⟨nofun, nofun⟩, advance.pool_isSound pools (sound.call _ (call?_of_returning phase))⟩

/-- Whatever sort-and-store does, it takes what it stores from the front of the queue and stores
what it has taken, in order. -/
theorem Moves.accounts (step : Moves assured time storer pool files after poolAfter changed)
    (accounts : storer.Accounts capacity maxEntries assured files stored)
    (pools : pool.IsSound capacity maxEntries) :
    ∃ more, poolAfter.IsSound capacity maxEntries ∧
      after.writer.directory = storer.writer.directory ∧
      after.writer.checkpoint = storer.writer.checkpoint ∧
      after.Accounts capacity maxEntries assured changed (stored ++ more) ∧
      (after.IsWell → more ++ after.hand ++ poolAfter.filled = storer.hand ++ pool.filled ∧
        Files.Overwrites (MergePlan.Inside files.working
          (Store.segmentsPath storer.writer.directory)) files changed) := by
  have runs := isWell_of_outcome step.ends.1
  have stays : Files.Overwrites (MergePlan.Inside files.working
      (Store.segmentsPath storer.writer.directory)) files files := .refl _ _
  obtain ⟨sound, poolSound⟩ := step.isSound accounts.sound pools
  -- all but storing leaves what is stored as it is
  have goesOn (well : after.IsWell) (writer : after.writer = storer.writer)
      (entries : after.entries = storer.entries) :
      after.Accounts capacity maxEntries assured files (stored ++ []) := by
    rw [List.append_nil]
    exact accounts.quiet runs well writer entries sound
  cases step with
  | fetching phase kind advance | fetched phase kind advance | ended phase kind advance =>
    refine ⟨[], poolSound, rfl, rfl, goesOn nofun rfl rfl, fun _ => ⟨?_, stays⟩⟩
    simp only [hand, goTo, phase]
    exact advance.gets (.inl kind)
  | fetchFailed phase kind advance =>
    have set := advance.isSound pools (accounts.sound.call _ (call?_of_acquiring phase))
      (by rw [kind]; exact nofun) (by rw [kind]; exact nofun)
    exact ⟨[], poolSound, rfl, rfl, .fails rfl fun _ => set, fun well => absurd rfl (well _)⟩
  | @stored buffer _ _ phase done =>
    obtain ⟨kept, directory, checkpoint, empty, overwrites⟩ :=
      (achieves_store accounts phase).of_ok done
    refine ⟨[buffer.batch.contents], pools, directory, checkpoint, kept, fun _ => ⟨?_, overwrites⟩⟩
    rw [empty, List.append_nil]
    simp only [hand, phase]
  | storeFailed phase failed steady =>
    refine ⟨[], pools, rfl, rfl, .fails rfl fun sure => ?_, fun well => absurd rfl (well _)⟩
    obtain ⟨_, _, done, -⟩ := (achieves_store accounts phase).of_steady (steady sure)
    cases failed.symm.trans done
  | returning phase kind advance =>
    refine ⟨[], poolSound, rfl, rfl, goesOn nofun rfl rfl, fun _ => ⟨?_, stays⟩⟩
    simp only [hand, goTo, phase]
    exact advance.gets (.inr kind)
  | returned phase kind advance =>
    refine ⟨[], poolSound, rfl, rfl, goesOn nofun rfl rfl, fun _ => ⟨?_, stays⟩⟩
    have whole := advance.gets (.inr kind)
    simp only [hand, goTo, phase]
    cases advance with
    | givenBack => exact whole
    | _ => cases kind
  | returnFailed phase kind advance =>
    have set := advance.isSound pools (accounts.sound.call _ (call?_of_returning phase))
      (by rw [kind]; exact nofun) (by rw [kind]; exact nofun)
    exact ⟨[], poolSound, rfl, rfl, .fails rfl fun _ => set, fun well => absurd rfl (well _)⟩

end TreeExport.Storer
