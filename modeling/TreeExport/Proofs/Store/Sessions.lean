import TreeExport.Proofs.Store.Closing
import TreeExport.Proofs.Store.Manifests

/-!
# Sessions of writers

Writers work on one directory, one after the other, and each may stop for good anywhere
(`Store.Writer.Moves`).  Whatever they leave behind is either no store at all, and then the next writer
starts over, or just what the one that has published had appended (`Store.Writer.History.all_or_nothing`).
-/

namespace TreeExport.Store.Writer

variable {time : Moment} {directory : String} {before : Files}

/-! ## Sessions -/

/-- A writer that is open, with the entries that it has appended. -/
structure Session where
  writer : Writer
  appended : List StoredEntry := []

/-- What there is between two operations: the tree, the session that goes on, and what was appended
in each session whose writer has come to the last change of closing. -/
structure Scene where
  files : Files
  session : Option Session := none
  published : List (List StoredEntry) := []

/-- What can happen next.  Operations that stop make changes up to anywhere.  A writer that has stopped
appending can go on, or is dropped; one that closes is gone, whether it comes to the end or not. -/
inductive Moves (directory : String) : Scene → Scene → Prop
  | opened {time : Moment} {files after : Files} {writer : Writer}
      {published : List (List StoredEntry)}
      (ran : (openAt directory).runOn time files = (.ok writer, after)) :
      Moves directory ⟨files, none, published⟩ ⟨after, some { writer }, published⟩
  | stoppedOpening {time : Moment} {files left : Files} {made : List Files.Change}
      {published : List (List StoredEntry)}
      (breaks : Program.BreaksOff time (openAt directory).run files made left) :
      Moves directory ⟨files, none, published⟩ ⟨left, none, published⟩
  | fanIn {files : Files} {session : Session} {published : List (List StoredEntry)} (fanIn : Nat) :
      Moves directory ⟨files, some session, published⟩
        ⟨files, some { session with writer := session.writer.setFanIn fanIn }, published⟩
  | checkpoint {files : Files} {session : Session} {published : List (List StoredEntry)}
      (label : Option String) :
      Moves directory ⟨files, some session, published⟩
        ⟨files, some { session with writer := { session.writer with checkpoint := label } }, published⟩
  | appended {time : Moment} {files after : Files} {session : Session} {run : List StoredEntry}
      {segment : Option Segment} {writer : Writer} {published : List (List StoredEntry)}
      (ran : (session.writer.append run).runOn time files = (.ok (segment, writer), after)) :
      Moves directory ⟨files, some session, published⟩
        ⟨after, some ⟨writer, session.appended ++ run⟩, published⟩
  | stoppedAppending {time : Moment} {files left : Files} {session : Session}
      {run : List StoredEntry} {made : List Files.Change} {published : List (List StoredEntry)}
      (breaks : Program.BreaksOff time (session.writer.append run).run files made left) :
      Moves directory ⟨files, some session, published⟩ ⟨left, some session, published⟩
  | dropped {files : Files} {session : Session} {published : List (List StoredEntry)} :
      Moves directory ⟨files, some session, published⟩ ⟨files, none, published⟩
  | closed {time : Moment} {files left : Files} {session : Session} {made : List Files.Change}
      {published : List (List StoredEntry)} (clock : time.IsOfClock)
      (breaks : Program.BreaksOff time session.writer.close.run files made left)
      (publishes : publishing directory ∈ made) :
      Moves directory ⟨files, some session, published⟩
        ⟨left, none, published ++ [session.appended]⟩
  | stoppedClosing {time : Moment} {files left : Files} {session : Session}
      {made : List Files.Change} {published : List (List StoredEntry)}
      (breaks : Program.BreaksOff time session.writer.close.run files made left)
      (publishesNot : publishing directory ∉ made) :
      Moves directory ⟨files, some session, published⟩ ⟨left, none, published⟩

/-- The scenes that sessions can come to, one after the other, from a tree. -/
inductive History (directory : String) (before : Files) : Scene → Prop
  | start : History directory before { files := before }
  | next {scene last : Scene} (earlier : History directory before scene)
      (moves : Moves directory scene last) : History directory before last

/-! ## What is there -/

/-- What holds of every scene: nothing is published, and what a writer has appended is in its segments,
or there is the store that one session has published. -/
inductive Scene.IsSound (directory : String) : Scene → Prop
  | idle {files : Files} (unpublished : IsUnpublished files directory) :
      IsSound directory { files }
  | writing {files : Files} {writer : Writer} {runs : List (List StoredEntry)}
      (here : writer.directory = directory) (draft : IsDraft files directory)
      (ready : IsReady files directory) (keeps : writer.Keeps files runs) :
      IsSound directory { files, session := some ⟨writer, runs.flatten⟩ }
  | published {files : Files} {manifest : Manifest} {entries : List StoredEntry}
      (publishes : Publishes files directory manifest (stableSort StoredEntry.path entries))
      (describes : manifest.Describes (stableSort StoredEntry.path entries))
      (short : ∀ entry ∈ stableSort StoredEntry.path entries, entry.IsShort)
      (clock : manifest.created.IsOfClock) : IsSound directory { files, published := [entries] }

theorem Keeps.of_fields {writer other : Writer} {files : Files} {runs : List (List StoredEntry)}
    (keeps : writer.Keeps files runs) (directory : other.directory = writer.directory)
    (segments : other.segments = writer.segments) (appended : other.appended = writer.appended) :
    other.Keeps files runs := by
  refine ⟨?_, ?_, keeps.sound, keeps.nonempty, appended.trans keeps.appended⟩
  · rw [directory, segments]
    exact keeps.paths
  · rw [directory]
    exact keeps.holds

/-- A writer appends to what it keeps, if it does not fail. -/
theorem Keeps.append {writer next : Writer} {files after : Files} {runs : List (List StoredEntry)}
    {run : List StoredEntry} {segment : Option Segment} (keeps : writer.Keeps files runs)
    (ran : (writer.append run).runOn time files = (.ok (segment, next), after)) :
    next.directory = writer.directory ∧
      ∃ kept, next.Keeps after kept ∧ kept.flatten = runs.flatten ++ run := by
  by_cases nonempty : run = []
  · subst nonempty
    cases ran
    exact ⟨rfl, runs, keeps, (List.append_nil _).symm⟩
  · obtain ⟨more, directory, -, -⟩ :=
      (achieves_append keeps (isRun_of_append ran) nonempty).of_ok ran
    refine ⟨directory, runs ++ [run], more, ?_⟩
    rw [List.flatten_append, List.flatten_singleton]

/-- What closing leaves behind when it has come to its last change: just what was appended. -/
theorem Keeps.publishes_of_close {writer : Writer} {files left : Files} {runs : List (List StoredEntry)}
    {manifest : Manifest} (keeps : writer.Keeps files runs) (proper : files.IsProper)
    (ready : IsReady files writer.directory)
    (done : writer.close.runOn time files = (.ok manifest, left)) (clock : time.IsOfClock) :
    Scene.IsSound writer.directory { files := left, published := [runs.flatten] } := by
  obtain ⟨rfl, publishes, -⟩ := (achieves_close proper ready keeps).of_ok done
  exact .published publishes (keeps.describes time) (isRun_stableSort keeps.sound).short clock

/-- A move keeps what holds of a scene. -/
theorem Moves.isSound {scene last : Scene} (moves : Moves directory scene last)
    (sound : scene.IsSound directory) : last.IsSound directory := by
  cases moves with
  | @opened _ _ after _ _ ran =>
    cases sound with
    | idle unpublished =>
      obtain ⟨rfl, fresh, draft⟩ := (completes_openAt unpublished).of_ok ran
      have keeps := @keeps_nil { directory := directory } after rfl rfl
      exact .writing rfl draft (fresh.isReady draft) keeps
    | published publishes =>
      rw [runOn_openAt_of_manifest publishes.openAt_manifest] at ran
      cases ran
  | stoppedOpening breaks =>
    cases sound with
    | idle unpublished => exact .idle ((completes_openAt unpublished).throughout _ _ breaks)
    | published publishes describes short clock =>
      obtain rfl := throughout_openAt_of_manifest publishes.openAt_manifest _ _ breaks
      exact .published publishes describes short clock
  | fanIn =>
    cases sound with
    | writing here draft ready keeps =>
      exact .writing here draft ready (keeps.of_fields rfl rfl rfl)
  | checkpoint =>
    cases sound with
    | writing here draft ready keeps =>
      exact .writing here draft ready (keeps.of_fields rfl rfl rfl)
  | appended ran =>
    cases sound with
    | writing here draft ready keeps =>
      subst here
      obtain ⟨same, kept, more, appended⟩ := keeps.append ran
      have draftAfter := (throughout_append draft _).last ran
      have readyAfter := ((keeps.throughout_append ready _).last ran).2
      rw [← appended]
      exact .writing same draftAfter readyAfter more
  | stoppedAppending breaks =>
    cases sound with
    | writing here draft ready keeps =>
      subst here
      obtain ⟨kept, readyLeft⟩ := keeps.throughout_append ready _ _ _ breaks
      exact .writing rfl (throughout_append draft _ _ _ breaks) readyLeft kept
  | dropped =>
    cases sound with
    | writing here draft ready keeps => exact .idle (.inl draft)
  | closed clock breaks publishes =>
    cases sound with
    | writing here draft ready keeps =>
      subst here
      rcases breaksOff_close draft breaks with ⟨publishesNot, -⟩ | ⟨-, manifest, done⟩
      · exact absurd publishes publishesNot
      · exact keeps.publishes_of_close draft.proper ready done clock
  | stoppedClosing breaks publishesNot =>
    cases sound with
    | writing here draft ready keeps =>
      subst here
      rcases breaksOff_close draft breaks with ⟨-, unpublished⟩ | ⟨publishes, -⟩
      · exact .idle unpublished
      · exact absurd publishes publishesNot

theorem History.isSound {scene : Scene} (history : History directory before scene)
    (unpublished : IsUnpublished before directory) : scene.IsSound directory := by
  induction history with
  | start => exact .idle unpublished
  | next earlier moves ih => exact moves.isSound ih

theorem isPublished_of_unpublished {files : Files} (unpublished : IsUnpublished files directory) :
    (Reader.isPublished directory).runOn time files = (.ok false, files) := by
  refine not_isPublished fun content there => ?_
  rw [unpublished.nothing] at there
  cases there

/-- Where no store is published, a reader finds none. -/
theorem runOn_reader_openAt {files : Files} (unpublished : IsUnpublished files directory) :
    (Reader.openAt directory).runOn time files =
      (.error (Reader.Refusal.toError (.unpublished directory)), files) := by
  rw [Reader.openAt, FileTask.runOn_bind_of_ok (isPublished_of_unpublished unpublished)]
  rfl

/-- Whatever sessions there have been, one after the other, and wherever each has stopped: if none has
come to the last change of closing, readers find no store, and a writer can be opened and starts with
nothing.  Otherwise just one has, and readers find a store that is sound, with just the entries that
were appended in that session, in order of their paths; no writer can be opened any more, and an
attempt changes nothing, wherever it stops. -/
theorem History.all_or_nothing {scene : Scene} (unpublished : IsUnpublished before directory)
    (history : History directory before scene)
    (few : ∀ entries ∈ scene.published, entries.length < 2 ^ 64) (time : Moment) :
    (scene.published = [] ∧
      (Reader.openAt directory).runOn time scene.files =
        (.error (Reader.Refusal.toError (.unpublished directory)), scene.files) ∧
      (Reader.isPublished directory).runOn time scene.files = (.ok false, scene.files) ∧
      ∃ after, (openAt directory).runOn time scene.files =
        (.ok { directory := directory }, after) ∧ IsFresh after directory) ∨
    ∃ entries manifest, scene.published = [entries] ∧
      (Reader.openAt directory).runOn time scene.files = (.ok ⟨directory, manifest⟩, scene.files) ∧
      (Reader.entries ⟨directory, manifest⟩).runOn time scene.files =
        (.ok ⟨dataPath directory, stableSort StoredEntry.path entries, none⟩, scene.files) ∧
      (Reader.verify ⟨directory, manifest⟩).runOn time scene.files = (.ok (), scene.files) ∧
      (openAt directory).runOn time scene.files =
        (.error (Refusal.toError (.published directory)), scene.files) ∧
      ∀ made left, Program.BreaksOff time (openAt directory).run scene.files made left →
        left = scene.files := by
  have nothing (unpublished : IsUnpublished scene.files directory) :
      (Reader.openAt directory).runOn time scene.files =
        (.error (Reader.Refusal.toError (.unpublished directory)), scene.files) ∧
      (Reader.isPublished directory).runOn time scene.files = (.ok false, scene.files) ∧
      ∃ after, (openAt directory).runOn time scene.files =
        (.ok { directory := directory }, after) ∧ IsFresh after directory := by
    obtain ⟨writer, after, opens, rfl, fresh, -⟩ := (completes_openAt unpublished).done
    exact ⟨runOn_reader_openAt unpublished, isPublished_of_unpublished unpublished, after,
      opens, fresh⟩
  cases history.isSound unpublished with
  | idle unpublished => exact .inl ⟨rfl, nothing unpublished⟩
  | writing here draft ready keeps => exact .inl ⟨rfl, nothing (.inl draft)⟩
  | @published files manifest entries publishes describes short clock =>
    have fewer : (stableSort StoredEntry.path entries).length < 2 ^ 64 := by
      rw [length_stableSort]
      exact few entries List.mem_cons_self
    exact .inr ⟨entries, manifest, rfl,
      publishes.opens (describes.isLegible fewer clock) describes,
      publishes.reads short rfl, publishes.verifies describes,
      runOn_openAt_of_manifest publishes.openAt_manifest,
      throughout_openAt_of_manifest publishes.openAt_manifest⟩

/-! ## Two sessions -/

/-- The directory of a store that has just been made in a tree that holds nothing. -/
def newStore : Files where
  entries := [(["store", "segments"], .directory), (["store"], .directory)]

/-- A run of which a part is written. -/
def lostRun : List StoredEntry :=
  [⟨"/lost", [0x31]⟩]

/-- A run that is written whole. -/
def keptRun : List StoredEntry :=
  [⟨"/kept", [0x32]⟩]

/-- What is left where the first session stops: a segment that is empty still. -/
def abandonedStore : Files :=
  newStore.put ["store", "segments", "segment-000001.dat"] (.file [])

/-- A writer that has written a run like these. -/
def keptWriter : Writer where
  directory := "store"
  segments := [⟨"store/segments/segment-000001.dat", 1, 14⟩]
  appended := 1

/-- What there is when the run has been written. -/
def keptStore : Files :=
  newStore.put ["store", "segments", "segment-000001.dat"]
    (.file (StoredEntry.encodeAll keptRun))

theorem isFresh_newStore : IsFresh newStore "store" := by
  refine ⟨⟨by decide, by decide⟩, by decide, fun {place} within differs => ?_, by decide⟩
  have inside : spot newStore.working "store" "segments" = ["store", "segments"] := by decide
  rw [inside] at within differs
  obtain ⟨rest, rfl⟩ := within
  cases rest with
  | nil => exact absurd rfl differs
  | cons name deeper => rfl

theorem hasRoom_empty : HasRoom {} "store" := by
  have none {α : Type} {holds : α → Prop} : ∀ value ∈ ([] : List α), holds value :=
    fun _ member => absurd member List.not_mem_nil
  have made : Files.Grows {} (Files.put {} ["store"] .directory) := Files.grows_put rfl
  exact ⟨⟨none, none⟩, .nil, by decide, rfl, newStore, made.trans (Files.grows_put rfl),
    isFresh_newStore⟩

/-- One session stops while it appends, and the next one publishes what it has appended itself. -/
theorem second_session : ∃ left, History "store" {} { files := left, published := [keptRun] } := by
  have opened : History "store" {} { files := newStore, session := some ⟨{ directory := "store" }, []⟩ } :=
    .next .start (.opened (show (openAt "store").runOn ⟨0, 0⟩ {} = _ by decide +kernel))
  have stops : abandonedStore ∈
      (Writer.append { directory := "store" } lostRun).run.trail ⟨0, 0⟩ newStore := by
    decide +kernel
  obtain ⟨made, breaks⟩ := Program.breaksOff_of_mem_trail stops
  have reopened : (openAt "store").runOn ⟨0, 0⟩ abandonedStore =
      (.ok { directory := "store" }, newStore) := by
    decide +kernel
  have appended : (Writer.append { directory := "store" } keptRun).runOn ⟨0, 0⟩ newStore =
      (.ok (some ⟨"store/segments/segment-000001.dat", 1, 14⟩, keptWriter), keptStore) := by
    decide +kernel
  have abandoned := (opened.next (.stoppedAppending breaks)).next .dropped
  have written := (abandoned.next (.opened reopened)).next (.appended appended)
  have publishes : publishing "store" ∈ keptWriter.close.run.changes ⟨0, 0⟩ keptStore := by
    decide +kernel
  have closes := Program.breaksOff_run ⟨0, 0⟩ keptWriter.close.run keptStore
  exact ⟨_, written.next (.closed ⟨by decide, by decide⟩ closes publishes)⟩

theorem second_session_published : ∃ left manifest,
    History "store" {} { files := left, published := [keptRun] } ∧
      (Reader.openAt "store").runOn ⟨0, 0⟩ left = (.ok ⟨"store", manifest⟩, left) ∧
      (Reader.entries ⟨"store", manifest⟩).runOn ⟨0, 0⟩ left =
        (.ok ⟨dataPath "store", stableSort StoredEntry.path keptRun, none⟩, left) := by
  obtain ⟨left, history⟩ := second_session
  have few : ∀ entries ∈ [keptRun], entries.length < 2 ^ 64 := by decide
  rcases History.all_or_nothing (.inr hasRoom_empty) history few ⟨0, 0⟩ with ⟨none, -⟩ | published
  · cases none
  · obtain ⟨entries, manifest, same, opens, reads, -⟩ := published
    obtain rfl := List.singleton_inj.mp same
    exact ⟨left, manifest, history, opens, reads⟩

end TreeExport.Store.Writer
