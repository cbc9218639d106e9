import TreeExport.Proofs.Memory.Words
import TreeExport.Proofs.Source.Serving

/-!
# The sizes of batches in words

A machine adds up the sizes of batches in words of 64 bits.  `Source.nextWords` is the answer of a source
where every sum of sizes notices if it does not fit.  As long as no record that the request lets through
is larger than a batch may be, all sums fit, and the answer is that of the source
(`Source.nextWords_eq`): a batch that is not empty is within the bound, and so the record that comes next
takes the sum to no more than twice the bound.
-/

namespace TreeExport

/-- The sum of two sizes, if it fits in a word. -/
def Word.sum (a b : Nat) : Except Fault Nat :=
  if a + b < UInt64.size then .ok (a + b) else .error .overflow

/-- It is the sum of the words that hold them. -/
theorem Word.sum_toNat (a b : UInt64) : sum a.toNat b.toNat = (add a b).map UInt64.toNat := by
  unfold sum add
  split
  · next fits =>
    rw [Except.map, UInt64.toNat_add, Nat.mod_eq_of_lt fits]
  · rfl

theorem Word.sum_of_lt {a b : Nat} (fits : a + b < UInt64.size) : sum a b = .ok (a + b) :=
  if_pos fits

/-! ## One record -/

namespace Record

/-- The size of fields, added to a size. -/
def weighFields (size : Nat) : List (String × Json) → Except Word.Fault Nat
  | [] => .ok size
  | (key, value) :: rest => do
    let own ← Word.sum (Utf8.size key) (Utf8.size value.compact)
    weighFields (← Word.sum size own) rest

/-- The size of a record. -/
def weigh (record : Record) : Except Word.Fault Nat := do
  let fields ← weighFields 0 record.fields
  let front ← Word.sum (Utf8.size record.id) ((record.path.map Utf8.size).getD 0)
  Word.sum front fields

end Record

/-! ## One batch -/

/-- The next record would take a batch of some records and some size over the bound; an empty batch takes
any record. -/
def BatchRequest.isOverWords (request : BatchRequest) (count size own : Nat) :
    Except Word.Fault Bool :=
  if count = 0 then .ok false else (Word.sum size own).map (request.maxBytes < ·)

namespace JsonLines

/-- Puts a record into the batch. -/
def Filling.pushWords (filling : Filling) (record : Record) (size : Nat) :
    Except Word.Fault Filling :=
  (Word.sum filling.size size).map fun size =>
    ⟨record :: filling.records, filling.count + 1, size⟩

/-- Fills a batch from lines. -/
def fillWords (request : BatchRequest) (source : JsonLines) (filling : Filling) :
    List Bytes → Except Word.Fault (Answer JsonLines)
  | [] => .ok (.ok filling.finish?, { source with lines := .ok [] })
  | bytes :: rest =>
    if request.maxDocuments ≤ filling.count then
      .ok (.ok filling.finish?, { source with lines := .ok (bytes :: rest) })
    else
      match Line.ofBytes bytes with
      | .notText =>
        .ok (.error (.source s!"{source.path}: {notTextReason}"), { source with lines := .ok rest })
      | .blank => fillWords request { source with line := source.line + 1 } filling rest
      | .notRecord =>
        .ok (.error (.source s!"{source.path}:{source.line + 1}: invalid record"),
          { source with lines := .ok rest, line := source.line + 1 })
      | .holding record size =>
        let source := { source with line := source.line + 1 }
        if !request.acceptsRecord record then
          fillWords request { source with skipped := source.skipped + 1 } filling rest
        else do
          if ← request.isOverWords filling.count filling.size size then
            return (.ok filling.finish?,
              { source with lines := .ok rest, pending := some (record, size) })
          let filling ← filling.pushWords record size
          fillWords request source filling rest

/-- Goes on with the lines, if they can be read. -/
def fillFromLinesWords (request : BatchRequest) (source : JsonLines) (filling : Filling) :
    Except Word.Fault (Answer JsonLines) :=
  match source.lines with
  | .ok lines => fillWords request source filling lines
  | .error reason =>
    if request.maxDocuments ≤ filling.count then .ok (.ok filling.finish?, source)
    else .ok (.error (.source s!"{source.path}: {reason}"), source)

/-- The next batch, or none at the end of the export. -/
def nextWords (request : BatchRequest) (source : JsonLines) :
    Except Word.Fault (Answer JsonLines) :=
  match source.pending with
  | none => fillFromLinesWords request source {}
  | some (record, size) =>
    if request.maxDocuments = 0 then .ok (.ok none, source)
    else
      let source := { source with pending := none }
      if request.acceptsRecord record then do
        let filling ← Filling.pushWords {} record size
        fillFromLinesWords request source filling
      else fillFromLinesWords request { source with skipped := source.skipped + 1 } {}

end JsonLines

namespace Predefined

/-- The longest beginning of a list that keeps a request's bounds, its size, and the rest. -/
def cutWords (request : BatchRequest) (count size : Nat) :
    List Record → Except Word.Fault (RecordBatch × List Record)
  | [] => .ok (⟨[], size⟩, [])
  | record :: rest => do
    let own ← record.weigh
    if count = request.maxDocuments then return (⟨[], size⟩, record :: rest)
    if ← request.isOverWords count size own then return (⟨[], size⟩, record :: rest)
    let size ← Word.sum size own
    let (taken, left) ← cutWords request (count + 1) size rest
    return (⟨record :: taken.records, taken.size⟩, left)

/-- The next batch, or none once the lists are used up. -/
def nextWords (request : BatchRequest) (source : Predefined) :
    Except Word.Fault (Except Error (Option RecordBatch) × Predefined) :=
  go source.lists
where
  /-- Looks for the first list with a wanted record. -/
  go : List (List Record) → Except Word.Fault (Except Error (Option RecordBatch) × Predefined)
    | [] =>
      match source.failure with
      | some message => .ok (.error (.source message), { source with lists := [], failure := none })
      | none => .ok (.ok none, { source with lists := [] })
    | list :: rest =>
      let wanted := list.filter request.acceptsRecord
      if wanted.isEmpty then go rest
      else do
        let (batch, left) ← cutWords request 0 0 wanted
        return (.ok (some batch),
          { source with lists := putBack left rest, served := source.served + 1 })

end Predefined

/-- The next batch, or none at the end. -/
def Source.nextWords (request : BatchRequest) :
    Source → Except Word.Fault (Except Error (Option RecordBatch) × Source)
  | .jsonLines source => do
    let (answer, source) ← source.nextWords request
    return (answer, .jsonLines source)
  | .predefined source => do
    let (answer, source) ← source.nextWords request
    return (answer, .predefined source)

/-! ## Nothing overflows -/

namespace Record

/-- The bytes of a field. -/
def fieldSize (field : String × Json) : Nat :=
  Utf8.size field.1 + Utf8.size field.2.compact

theorem approximateSize_eq (record : Record) :
    record.approximateSize = Utf8.size record.id + (record.path.map Utf8.size).getD 0 +
      total (record.fields.map fieldSize) :=
  rfl

theorem weighFields_of_lt {size : Nat} {fields : List (String × Json)}
    (fits : size + total (fields.map fieldSize) < UInt64.size) :
    weighFields size fields = .ok (size + total (fields.map fieldSize)) := by
  induction fields generalizing size with
  | nil => rfl
  | cons field rest ih =>
    obtain ⟨key, value⟩ := field
    rw [List.map_cons, total_cons, fieldSize] at fits ⊢
    dsimp only at fits ⊢
    rw [weighFields, Word.bind_of_ok (Word.sum_of_lt (by omega)),
      Word.bind_of_ok (Word.sum_of_lt (by omega)), ih (by omega), Nat.add_assoc]

theorem weigh_of_lt {record : Record} (fits : record.approximateSize < UInt64.size) :
    record.weigh = .ok record.approximateSize := by
  rw [approximateSize_eq] at fits ⊢
  have fields : weighFields 0 record.fields = .ok (0 + total (record.fields.map fieldSize)) :=
    weighFields_of_lt (by omega)
  rw [Nat.zero_add] at fields
  rw [weigh, Word.bind_of_ok fields, Word.bind_of_ok (Word.sum_of_lt (by omega))]
  exact Word.sum_of_lt fits

end Record

variable {request : BatchRequest}

namespace BatchRequest

theorem wanted_cons_of_pos {record : Record} {size : Nat} {rest : List SizedRecord}
    (accepted : request.acceptsRecord record = true) :
    request.wanted ((record, size) :: rest) = (record, size) :: request.wanted rest :=
  List.filter_cons_of_pos accepted

theorem wanted_cons_of_neg {record : Record} {size : Nat} {rest : List SizedRecord}
    (refused : ¬ request.acceptsRecord record = true) :
    request.wanted ((record, size) :: rest) = request.wanted rest :=
  List.filter_cons_of_neg refused

theorem isOverWords_of_lt {count size own : Nat} (fits : size + own < UInt64.size) :
    request.isOverWords count size own = .ok (count != 0 && request.maxBytes < size + own) := by
  unfold isOverWords
  split
  · next none =>
    rw [none]
    rfl
  · next some =>
    rw [Word.sum_of_lt fits, bne_iff_ne.mpr some]
    rfl

end BatchRequest

namespace JsonLines

variable {source : JsonLines} {filling : Filling} {lines : List Bytes}

theorem Filling.isOverWords_of_lt {size : Nat} (fits : filling.size + size < UInt64.size) :
    request.isOverWords filling.count filling.size size = .ok (filling.isOver request size) :=
  BatchRequest.isOverWords_of_lt fits

theorem Filling.pushWords_of_lt {record : Record} {size : Nat}
    (fits : filling.size + size < UInt64.size) :
    filling.pushWords record size = .ok (filling.push record size) := by
  rw [pushWords, Word.sum_of_lt fits]
  rfl

/-- The batch is within the bound, and has no size before it holds a record. -/
structure Filling.Keeps (filling : Filling) (request : BatchRequest) : Prop where
  within : filling.size ≤ request.maxBytes
  blank : filling.count = 0 → filling.size = 0

theorem Filling.keeps_empty (request : BatchRequest) : Filling.Keeps {} request :=
  ⟨Nat.zero_le _, fun _ => rfl⟩

theorem Filling.Keeps.push {record : Record} {size : Nat} (keeps : filling.Keeps request)
    (small : size ≤ request.maxBytes) (room : filling.isOver request size = false) :
    (filling.push record size).Keeps request := by
  refine ⟨?_, fun none => absurd none (Nat.succ_ne_zero _)⟩
  change filling.size + size ≤ request.maxBytes
  by_cases first : filling.count = 0
  · rw [keeps.blank first, Nat.zero_add]
    exact small
  · rw [isOver, bne_iff_ne.mpr first, Bool.true_and, decide_eq_false_iff_not] at room
    exact Nat.not_lt.mp room

/-- Filling a batch does not overflow. -/
theorem fillWords_eq (fits : 2 * request.maxBytes < UInt64.size) (keeps : filling.Keeps request)
    (small : ∀ sized ∈ request.wanted (held lines), sized.2 ≤ request.maxBytes) :
    fillWords request source filling lines = .ok (fill request source filling lines) := by
  induction lines generalizing source filling with
  | nil => rfl
  | cons bytes rest ih =>
    rw [fillWords, fill]
    rw [held] at small
    split
    · rfl
    · cases line : Line.ofBytes bytes with
      | notText | notRecord => rfl
      | blank =>
        rw [line] at small
        exact ih keeps small
      | holding record size =>
        rw [line] at small
        dsimp only
        by_cases accepted : request.acceptsRecord record
        · rw [BatchRequest.wanted_cons_of_pos accepted] at small
          obtain ⟨own, later⟩ := List.forall_mem_cons.mp small
          have within := keeps.within
          have sum : filling.size + size < UInt64.size := by omega
          rw [accepted, Word.bind_of_ok (Filling.isOverWords_of_lt sum)]
          simp only [Bool.not_true, Bool.false_eq_true, if_false]
          cases room : filling.isOver request size with
          | true => rfl
          | false =>
            simp only [Bool.false_eq_true, if_false]
            rw [Word.bind_of_ok (Filling.pushWords_of_lt sum)]
            exact ih (keeps.push own room) later
        · rw [BatchRequest.wanted_cons_of_neg accepted] at small
          simp only [accepted, Bool.not_false, if_true]
          exact ih keeps small

theorem fillFromLinesWords_eq (fits : 2 * request.maxBytes < UInt64.size)
    (keeps : filling.Keeps request) (nothing : source.pending = none)
    (small : ∀ sized ∈ request.wanted source.left, sized.2 ≤ request.maxBytes) :
    fillFromLinesWords request source filling = .ok (fillFromLines request source filling) := by
  unfold fillFromLinesWords fillFromLines
  cases lines : source.lines with
  | ok lines =>
    rw [left_eq source ‹_› nothing] at small
    exact fillWords_eq fits keeps small
  | error reason =>
    dsimp only
    split
    · rfl
    · rfl

/-- An export that holds no large record adds up sizes that fit. -/
theorem nextWords_eq (fits : 2 * request.maxBytes < UInt64.size)
    (small : ∀ sized ∈ request.wanted source.left, sized.2 ≤ request.maxBytes) :
    source.nextWords request = .ok (source.next request) := by
  unfold nextWords next
  cases pending : source.pending with
  | none => exact fillFromLinesWords_eq fits (Filling.keeps_empty request) pending small
  | some sized =>
    obtain ⟨record, size⟩ := sized
    have left : source.left =
        (record, size) :: ({ source with pending := none } : JsonLines).left := by
      rw [JsonLines.left, pending]
      rfl
    rw [left] at small
    dsimp only
    split
    · rfl
    · split
      · next accepted =>
        rw [BatchRequest.wanted_cons_of_pos accepted] at small
        obtain ⟨own, later⟩ := List.forall_mem_cons.mp small
        have sum : ({} : Filling).size + size < UInt64.size := by
          change 0 + size < UInt64.size
          omega
        have room : Filling.isOver {} request size = false := Bool.false_and _
        have keeps : (Filling.push {} record size).Keeps request :=
          (Filling.keeps_empty request).push own room
        rw [Word.bind_of_ok (Filling.pushWords_of_lt sum)]
        exact fillFromLinesWords_eq fits keeps rfl later
      · next refused =>
        rw [BatchRequest.wanted_cons_of_neg refused] at small
        exact fillFromLinesWords_eq fits (Filling.keeps_empty request) rfl small

end JsonLines

namespace Predefined

variable {records taken left : List Record} {count size : Nat}

/-- Cutting a list does not overflow. -/
theorem cutWords_eq (fits : 2 * request.maxBytes < UInt64.size) (within : size ≤ request.maxBytes)
    (blank : count = 0 → size = 0)
    (small : ∀ record ∈ records, record.approximateSize ≤ request.maxBytes)
    (cuts : cut request count size records = (taken, left)) :
    cutWords request count size records =
      .ok (⟨taken, size + total (taken.map Record.approximateSize)⟩, left) := by
  induction records generalizing count size taken with
  | nil =>
    cases cuts
    rfl
  | cons record rest ih =>
    obtain ⟨own, later⟩ := List.forall_mem_cons.mp small
    have sum : size + record.approximateSize < UInt64.size := by omega
    rw [cutWords, Word.bind_of_ok (Record.weigh_of_lt (by omega))]
    rw [cut] at cuts
    by_cases full : count = request.maxDocuments
    · rw [if_pos (.inl full)] at cuts
      cases cuts
      rw [if_pos full]
      rfl
    rw [if_neg full, Word.bind_of_ok (BatchRequest.isOverWords_of_lt sum)]
    have isOver : (count != 0 && decide (request.maxBytes < size + record.approximateSize)) = true ↔
        count ≠ 0 ∧ request.maxBytes < size + record.approximateSize := by
      rw [Bool.and_eq_true, bne_iff_ne, decide_eq_true_iff]
    by_cases exceeds : count ≠ 0 ∧ request.maxBytes < size + record.approximateSize
    · rw [if_pos (.inr exceeds)] at cuts
      cases cuts
      rw [if_pos (isOver.mpr exceeds)]
      rfl
    · rw [if_neg (not_or.mpr ⟨full, exceeds⟩)] at cuts
      have kept : size + record.approximateSize ≤ request.maxBytes := by
        by_cases first : count = 0
        · rw [blank first, Nat.zero_add]
          exact own
        · exact Nat.not_lt.mp fun excess => exceeds ⟨first, excess⟩
      rcases others : cut request (count + 1) (size + record.approximateSize) rest with
        ⟨takenLater, leftLater⟩
      rw [others] at cuts
      cases cuts
      have more := ih kept (fun none => absurd none (Nat.succ_ne_zero _)) later others
      rw [if_neg (mt isOver.mp exceeds), Word.bind_of_ok (Word.sum_of_lt sum), Word.bind_of_ok more,
        List.map_cons, total_cons, ← Nat.add_assoc]
      rfl

theorem nextWords_go_eq (fits : 2 * request.maxBytes < UInt64.size) (source : Predefined)
    (lists : List (List Record))
    (small : ∀ sized ∈ request.wanted (lists.map fun records => records.map Predefined.sized).flatten,
      sized.2 ≤ request.maxBytes) :
    nextWords.go request source lists = .ok (next.go request source lists) := by
  induction lists with
  | nil =>
    rw [nextWords.go, next.go]
    cases source.failure with
    | some message => rfl
    | none => rfl
  | cons records lists ih =>
    rw [List.map_cons, List.flatten_cons, BatchRequest.wanted_append, List.forall_mem_append,
      wanted_map_sized, List.forall_mem_map] at small
    obtain ⟨own, later⟩ := small
    rw [nextWords.go, next.go]
    by_cases nothing : records.filter request.acceptsRecord = []
    · simp only [nothing, List.isEmpty_nil, if_true]
      exact ih later
    · rcases cuts : cut request 0 0 (records.filter request.acceptsRecord) with ⟨taken, left⟩
      simp only [List.isEmpty_iff, nothing, if_false]
      rw [Word.bind_of_ok (cutWords_eq fits (Nat.zero_le _) (fun _ => rfl) own cuts), Nat.zero_add]
      rfl

/-- A source of lists that holds no large record adds up sizes that fit. -/
theorem nextWords_eq (fits : 2 * request.maxBytes < UInt64.size) (source : Predefined)
    (small : ∀ sized ∈ request.wanted source.left.flatten, sized.2 ≤ request.maxBytes) :
    source.nextWords request = .ok (source.next request) :=
  nextWords_go_eq fits source source.lists small

end Predefined

/-- A source that holds no record larger than a batch may be adds up sizes that fit. -/
theorem Source.nextWords_eq (fits : 2 * request.maxBytes < UInt64.size) (source : Source)
    (small : ∀ sized ∈ request.wanted source.left.flatten, sized.2 ≤ request.maxBytes) :
    source.nextWords request = .ok (source.next request) := by
  cases source with
  | jsonLines source =>
    have same : source.left = [source.left].flatten := List.flatten_singleton.symm
    rw [nextWords, Word.bind_of_ok (JsonLines.nextWords_eq fits (same ▸ small))]
    rfl
  | predefined source =>
    rw [nextWords, Word.bind_of_ok (Predefined.nextWords_eq fits source small)]
    rfl

end TreeExport
