import TreeExport.EntryBatch
import TreeExport.Proofs.StableSort

/-!
# What a batch holds

Keys are sorted apart from the bytes that they point into, and entries may be added after that.
Whatever is asked of a batch: its buffer holds the entries that it has taken since it was cleared, one
behind the other, and its keys lead to them (`EntryBatch.holds_calls`).
-/

namespace TreeExport.EntryBatch

variable {batch : EntryBatch}

/-! ## Reading payloads back -/

theorem payloadAt_push_of_ok {offset : Nat} {found : Bytes} (path : String) (payload : Bytes)
    (there : batch.payloadAt offset = .ok found) :
    (batch.push path payload).payloadAt offset = .ok found := by
  unfold payloadAt push at *
  simp only at *
  split at there
  · cases there
  · next width =>
    split at there
    · cases there
    · next enough =>
      rw [Nat.not_lt, List.length_take] at width
      have head : (batch.buffer.drop offset ++
            (Length.encode payload.length ++ payload)).take Length.width =
          (batch.buffer.drop offset).take Length.width :=
        List.take_append_of_le_length (by omega)
      have within : offset ≤ batch.buffer.length := by
        rw [List.length_drop] at width
        have : 0 < Length.width := by decide
        omega
      rw [List.drop_append_of_le_length within, head, if_neg (by rw [List.length_take]; omega),
        List.drop_append_of_le_length (by omega)]
      rw [Nat.not_lt] at enough
      rw [if_neg (by rw [List.length_append]; omega), List.take_append_of_le_length enough]
      exact there

theorem payloadAt_push_self {payload : Bytes} (path : String)
    (small : payload.length < Length.limit) :
    (batch.push path payload).payloadAt batch.size = .ok payload := by
  have head : (Length.encode payload.length ++ payload).take Length.width =
      Length.encode payload.length := List.take_left' (Length.length_encode _)
  have body : (Length.encode payload.length ++ payload).drop Length.width = payload :=
    List.drop_left' (Length.length_encode _)
  simp only [payloadAt, push, size, List.drop_left, head, body, Length.length_encode,
    Nat.lt_irrefl, if_false, Length.decode_encode small, List.take_length]

/-- A payload that is read lies in the buffer. -/
theorem lt_size_of_payloadAt {offset : Nat} {found : Bytes}
    (there : batch.payloadAt offset = .ok found) : offset < batch.size := by
  unfold payloadAt at there
  simp only at there
  split at there
  · cases there
  · next width =>
    rw [Nat.not_lt, List.length_take, List.length_drop] at width
    have : 0 < Length.width := by decide
    unfold size
    omega

/-! ## Calls -/

/-- An entry that a batch has taken, with the offset that it was given. -/
structure Taken where
  path : String
  payload : Bytes
  offset : Nat
  deriving Repr, DecidableEq

namespace Taken

/-- The key that leads to the entry. -/
def key (entry : Taken) : SortKey :=
  ⟨entry.path, entry.offset⟩

/-- What the entry is in the buffer. -/
def bytes (entry : Taken) : Bytes :=
  Length.encode entry.payload.length ++ entry.payload

end Taken

/-- What is asked of a batch. -/
inductive Call
  | add (path : String) (payload : Bytes)
  | sort
  | clear
  deriving Repr, DecidableEq

/-- What a batch answers. -/
inductive Answer
  | offset (offset : Nat)
  | refused (fault : Fault)
  | done
  deriving Repr, DecidableEq

/-- The payload that is to be added has a length that can be written. -/
def Call.IsShort : Call → Prop
  | add _ payload => payload.length < Length.limit
  | _ => True

instance : (call : Call) → Decidable call.IsShort
  | .add _ payload => inferInstanceAs (Decidable (payload.length < Length.limit))
  | .sort => .isTrue trivial
  | .clear => .isTrue trivial

/-- What a batch answers, and what it is then.  An entry that it refuses leaves it as it was. -/
def call (batch : EntryBatch) : Call → Answer × EntryBatch
  | .add path payload =>
    match batch.add path payload with
    | .ok next => (.offset batch.size, next)
    | .error fault => (.refused fault, batch)
  | .sort => (.done, batch.sort)
  | .clear => (.done, batch.clear)

/-- What a batch answers to one call after the other, and what it is in the end. -/
def calls (batch : EntryBatch) : List Call → List Answer × EntryBatch
  | [] => ([], batch)
  | call :: rest =>
    let (answer, next) := batch.call call
    let (answers, last) := next.calls rest
    (answer :: answers, last)

/-- The entries that have been taken since the last time that all were cleared away, after those
that were there before. -/
def takenBy (taken : List Taken) : List Call → List Answer → List Taken
  | .add path payload :: rest, .offset offset :: answers =>
    takenBy (taken ++ [⟨path, payload, offset⟩]) rest answers
  | .clear :: rest, _ :: answers => takenBy [] rest answers
  | _ :: rest, _ :: answers => takenBy taken rest answers
  | _, _ => taken

/-! ## What is kept -/

/-- The batch holds the entries that it has taken, and nothing else. -/
structure Holds (capacity maxEntries : Nat) (taken : List Taken) (batch : EntryBatch) : Prop where
  capacity_eq : batch.capacity = capacity
  maxEntries_eq : batch.maxEntries = maxEntries
  buffer : batch.buffer = (taken.map Taken.bytes).flatten
  keys : batch.keys.Perm (taken.map Taken.key)
  ordered : ∀ path, (itemsAt SortKey.path path batch.keys).Pairwise fun a b => a.offset < b.offset
  payloads : ∀ entry ∈ taken, batch.payloadAt entry.offset = .ok entry.payload
  size_le : batch.size ≤ capacity
  length_le : batch.length ≤ maxEntries

variable {capacity maxEntries : Nat} {taken : List Taken}

theorem holds_empty (capacity maxEntries : Nat) :
    Holds capacity maxEntries [] (.empty capacity maxEntries) :=
  ⟨rfl, rfl, rfl, .nil, fun _ => .nil, fun _ none => absurd none List.not_mem_nil, Nat.zero_le _,
    Nat.zero_le _⟩

/-- An entry is taken just where there is space, if payloads for which there is space have lengths that
can be written. -/
theorem call_add_of_space {path : String} {payload : Bytes}
    (short : batch.hasSpace payload.length = true → payload.length < Length.limit) :
    batch.call (.add path payload) =
      if batch.hasSpace payload.length then (.offset batch.size, batch.push path payload)
      else (.refused (.noSpace path payload.length batch.size batch.capacity batch.length
        batch.maxEntries), batch) := by
  unfold call add
  cases space : batch.hasSpace payload.length with
  | true =>
    simp only [space, Bool.not_true, Bool.false_eq_true, if_false, Nat.not_le.mpr (short space),
      if_true]
  | false => simp only [space, Bool.not_false, if_true, Bool.false_eq_true, if_false]

/-- An entry whose payload has a length that can be written is taken just where there is space. -/
theorem call_add {path : String} {payload : Bytes} (short : payload.length < Length.limit) :
    batch.call (.add path payload) =
      if batch.hasSpace payload.length then (.offset batch.size, batch.push path payload)
      else (.refused (.noSpace path payload.length batch.size batch.capacity batch.length
        batch.maxEntries), batch) :=
  call_add_of_space fun _ => short

theorem length_lt_of_hasSpace {length : Nat} (small : batch.capacity < Length.limit)
    (space : batch.hasSpace length = true) : length < Length.limit := by
  simp only [hasSpace, Bool.and_eq_true, decide_eq_true_eq] at space
  omega

namespace Holds

theorem lt_size (holds : Holds capacity maxEntries taken batch) :
    ∀ key ∈ batch.keys, key.offset < batch.size := by
  intro key member
  obtain ⟨entry, entryTaken, rfl⟩ := List.mem_map.mp (holds.keys.mem_iff.mp member)
  exact lt_size_of_payloadAt (holds.payloads entry entryTaken)

theorem push (holds : Holds capacity maxEntries taken batch) {path : String} {payload : Bytes}
    (short : payload.length < Length.limit) (space : batch.hasSpace payload.length = true) :
    Holds capacity maxEntries (taken ++ [⟨path, payload, batch.size⟩])
      (batch.push path payload) := by
  simp only [hasSpace, Bool.and_eq_true, decide_eq_true_eq, holds.capacity_eq,
    holds.maxEntries_eq] at space
  obtain ⟨few, fits⟩ := space
  refine ⟨holds.capacity_eq, holds.maxEntries_eq, ?_, ?_, fun other => ?_, ?_, ?_, ?_⟩
  · rw [List.map_append, List.flatten_append, ← holds.buffer]
    simp only [EntryBatch.push, List.map_cons, List.map_nil, List.flatten_cons, List.flatten_nil,
      List.append_nil, Taken.bytes]
  · rw [List.map_append]
    exact holds.keys.append_right _
  · -- what was there before lies in front of what is new
    rw [EntryBatch.push, itemsAt_append]
    refine List.pairwise_append.mpr ⟨holds.ordered other, ?_, fun key member added new => ?_⟩
    · exact (List.pairwise_singleton _ _).sublist List.filter_sublist
    · obtain rfl := List.mem_singleton.mp (List.mem_of_mem_filter new)
      exact holds.lt_size key (List.mem_of_mem_filter member)
  · intro entry member
    rcases List.mem_append.mp member with early | last
    · exact payloadAt_push_of_ok path payload (holds.payloads entry early)
    · obtain rfl := List.mem_singleton.mp last
      exact payloadAt_push_self path short
  · simp only [size, EntryBatch.push, List.length_append, Length.length_encode] at fits ⊢
    omega
  · simp only [length, EntryBatch.push, List.length_append, List.length_singleton] at few ⊢
    omega

theorem sort (holds : Holds capacity maxEntries taken batch) :
    Holds capacity maxEntries taken batch.sort := by
  have keys : batch.sort.keys = stableSort SortKey.path batch.keys := rfl
  refine ⟨holds.capacity_eq, holds.maxEntries_eq, holds.buffer, ?_, fun path => ?_,
    holds.payloads, holds.size_le, ?_⟩
  · rw [keys]
    exact (stableSort_perm _).trans holds.keys
  · rw [keys, itemsAt_stableSort]
    exact holds.ordered path
  · rw [length, keys, length_stableSort]
    exact holds.length_le

theorem clear (holds : Holds capacity maxEntries taken batch) :
    Holds capacity maxEntries [] batch.clear := by
  have same : batch.clear = .empty capacity maxEntries := by
    rw [EntryBatch.clear, holds.capacity_eq, holds.maxEntries_eq]
    rfl
  rw [same]
  exact holds_empty capacity maxEntries

/-- One call keeps what is held, with the entry that is taken by it. -/
theorem call (holds : Holds capacity maxEntries taken batch) {call : Call}
    (short : capacity < Length.limit ∨ call.IsShort) :
    Holds capacity maxEntries (takenBy taken [call] [(batch.call call).1]) (batch.call call).2 := by
  cases call with
  | add path payload =>
    have within : batch.hasSpace payload.length = true → payload.length < Length.limit :=
      fun space => short.elim (fun small => length_lt_of_hasSpace (holds.capacity_eq ▸ small) space) id
    rw [call_add_of_space within]
    split
    · next space => exact holds.push (within space) space
    · exact holds
  | sort => exact holds.sort
  | clear => exact holds.clear

end Holds

theorem takenBy_cons (taken : List Taken) (call : Call) (answer : Answer) (calls : List Call)
    (answers : List Answer) :
    takenBy taken (call :: calls) (answer :: answers) =
      takenBy (takenBy taken [call] [answer]) calls answers := by
  cases call <;> cases answer <;> rfl

/-- Any calls keep what is held. -/
theorem Holds.run (holds : Holds capacity maxEntries taken batch) {calls : List Call}
    (short : ∀ call ∈ calls, capacity < Length.limit ∨ call.IsShort) :
    Holds capacity maxEntries (takenBy taken calls (batch.calls calls).1)
      (batch.calls calls).2 := by
  induction calls generalizing taken batch with
  | nil => exact holds
  | cons call rest ih =>
    have one := holds.call (short call List.mem_cons_self)
    have later := ih one fun other member => short other (List.mem_cons_of_mem _ member)
    rw [EntryBatch.calls, takenBy_cons]
    exact later

theorem Holds.calls (holds : Holds capacity maxEntries taken batch) {calls : List Call}
    (short : ∀ call ∈ calls, call.IsShort) :
    Holds capacity maxEntries (takenBy taken calls (batch.calls calls).1)
      (batch.calls calls).2 :=
  holds.run fun call member => .inr (short call member)

/-- Whatever calls there have been of a batch that was empty: it holds the entries that it has taken
since it was last cleared.  It takes one more just where there is space for it, at the end of its
buffer, and is as it was where it refuses one; and sorted, its keys are in the order of their paths. -/
theorem holds_calls {calls : List Call} (short : ∀ call ∈ calls, call.IsShort)
    {answers : List Answer}
    (made : (empty capacity maxEntries).calls calls = (answers, batch)) :
    Holds capacity maxEntries (takenBy [] calls answers) batch ∧
      (∀ path payload, payload.length < Length.limit →
        (batch.hasSpace payload.length = true →
          batch.call (.add path payload) = (.offset batch.size, batch.push path payload)) ∧
        (batch.hasSpace payload.length = false →
          ∃ fault, batch.call (.add path payload) = (.refused fault, batch))) ∧
      SortedBy SortKey.path (batch.call .sort).2.keys := by
  have held := (holds_empty capacity maxEntries).calls short
  rw [made] at held
  refine ⟨held, fun path payload short => ⟨fun space => ?_, fun full => ?_⟩,
    sortedBy_stableSort batch.keys⟩
  · rw [call_add short, if_pos space]
  · exact ⟨_, by rw [call_add short, if_neg (by simp [full])]⟩

/-- Calls that are answered in all ways: the third entry does not fit. -/
def someCalls : List Call :=
  [.add "/b" [0x31], .add "/a" [], .sort, .add "/c" [0x32, 0x33], .add "/a" [0x34]]

theorem holds_some_calls : (∀ call ∈ someCalls, call.IsShort) ∧
    Holds 14 4 [⟨"/b", [0x31], 0⟩, ⟨"/a", [], 5⟩, ⟨"/a", [0x34], 9⟩]
      { capacity := 14
        maxEntries := 4
        buffer := [0, 0, 0, 1, 0x31, 0, 0, 0, 0, 0, 0, 0, 1, 0x34]
        keys := [⟨"/a", 5⟩, ⟨"/b", 0⟩, ⟨"/a", 9⟩] } := by
  have short : ∀ call ∈ someCalls, call.IsShort := by decide
  have sorted : stableSort SortKey.path [⟨"/b", 0⟩, ⟨"/a", 5⟩] = [⟨"/a", 5⟩, ⟨"/b", 0⟩] :=
    (stableSort_eq_of_perm (.swap ..) (by decide)).trans (stableSort_of_sortedBy (by decide))
  have front : (empty 14 4).calls someCalls =
      let later := (EntryBatch.mk 14 4 [0, 0, 0, 1, 0x31, 0, 0, 0, 0]
        (stableSort SortKey.path [⟨"/b", 0⟩, ⟨"/a", 5⟩])).calls
          [.add "/c" [0x32, 0x33], .add "/a" [0x34]]
      (.offset 0 :: .offset 5 :: .done :: later.1, later.2) := rfl
  have back : (EntryBatch.mk 14 4 [0, 0, 0, 1, 0x31, 0, 0, 0, 0] [⟨"/a", 5⟩, ⟨"/b", 0⟩]).calls
      [.add "/c" [0x32, 0x33], .add "/a" [0x34]] =
      ([.refused (.noSpace "/c" 2 9 14 2 4), .offset 9],
        ⟨14, 4, [0, 0, 0, 1, 0x31, 0, 0, 0, 0, 0, 0, 0, 1, 0x34],
          [⟨"/a", 5⟩, ⟨"/b", 0⟩, ⟨"/a", 9⟩]⟩) := by
    decide
  rw [sorted, back] at front
  exact ⟨short, (holds_calls short front).1⟩

/-! ## Offsets and lengths in four bytes -/

/-- The offsets and lengths of a batch are below the limit, and so is the length of whatever there is
space for. -/
structure FitsLimit (batch : EntryBatch) : Prop where
  offsets : ∀ key ∈ batch.keys, key.offset < Length.limit
  payloads : ∀ key ∈ batch.keys, ∃ payload, batch.payloadAt key.offset = .ok payload ∧
    payload.length < Length.limit
  takes : ∀ path payload other, batch.add path payload ≠ .error (.tooLong other)

theorem length_le_of_payloadAt {offset : Nat} {found : Bytes}
    (there : batch.payloadAt offset = .ok found) : found.length ≤ batch.size := by
  unfold payloadAt at there
  simp only at there
  split at there
  · cases there
  · split at there
    · cases there
    · cases there
      simp only [List.length_take, List.length_drop, size]
      omega

theorem add_ne_tooLong (small : batch.capacity < Length.limit) (path : String) (payload : Bytes)
    (other : String) : batch.add path payload ≠ .error (.tooLong other) := by
  unfold add
  split
  · exact nofun
  · next space =>
    have short := length_lt_of_hasSpace small (by simpa using space)
    rw [if_neg (Nat.not_le.mpr short)]
    exact nofun

/-- So it is in a buffer below the limit all of whose entries can be read. -/
theorem fitsLimit_of_readable (small : batch.capacity < Length.limit)
    (within : batch.size ≤ batch.capacity)
    (readable : ∀ key ∈ batch.keys, ∃ payload, batch.payloadAt key.offset = .ok payload) :
    batch.FitsLimit := by
  refine ⟨fun key member => ?_, fun key member => ?_, add_ne_tooLong small⟩
  · obtain ⟨payload, there⟩ := readable key member
    exact Nat.lt_trans (lt_size_of_payloadAt there) (Nat.lt_of_le_of_lt within small)
  · obtain ⟨payload, there⟩ := readable key member
    exact ⟨payload, there,
      Nat.lt_of_le_of_lt (Nat.le_trans (length_le_of_payloadAt there) within) small⟩

theorem Holds.fitsLimit (holds : Holds capacity maxEntries taken batch)
    (small : capacity < Length.limit) : batch.FitsLimit := by
  refine fitsLimit_of_readable (holds.capacity_eq ▸ small) (holds.capacity_eq ▸ holds.size_le)
    fun key member => ?_
  obtain ⟨entry, entryTaken, rfl⟩ := List.mem_map.mp (holds.keys.mem_iff.mp member)
  exact ⟨entry.payload, holds.payloads entry entryTaken⟩

/-- No answer of a batch whose capacity is below the limit is that an entry is too long. -/
theorem Holds.notMem_tooLong (holds : Holds capacity maxEntries taken batch)
    (small : capacity < Length.limit) (calls : List Call) (path : String) :
    .refused (.tooLong path) ∉ (batch.calls calls).1 := by
  induction calls generalizing taken batch with
  | nil => exact List.not_mem_nil
  | cons call rest ih =>
    have first : (batch.call call).1 ≠ .refused (.tooLong path) := by
      cases call with
      | add other payload =>
        have fits := add_ne_tooLong (holds.capacity_eq ▸ small) other payload path
        cases added : batch.add other payload with
        | ok next =>
          simp only [EntryBatch.call, added]
          exact nofun
        | error fault =>
          simp only [EntryBatch.call, added]
          rintro ⟨⟩
          exact fits added
      | sort => exact nofun
      | clear => exact nofun
    intro member
    rcases List.mem_cons.mp member with here | later
    · exact first here.symm
    · exact ih (holds.call (.inl small)) later

end TreeExport.EntryBatch
