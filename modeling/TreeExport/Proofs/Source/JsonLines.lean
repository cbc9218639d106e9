import TreeExport.Proofs.Source.Batching
import TreeExport.Source.JsonLines

/-!
# Batches from a file of lines

What an export has left are its pending record and the records of the lines to come, up to the first
line that is none.  Whatever batch a call fills, what it takes stands in front of what it leaves
(`JsonLines.answers_next`), whether it stops because the bounds are reached, because a record does
not fit any more, or because the lines are used up.
-/

namespace TreeExport.JsonLines

/-- The line is blank or holds a record. -/
def Line.IsSound : Line → Prop
  | .blank => True
  | .holding _ _ => True
  | _ => False

/-- The records of lines, up to the first line that is none. -/
def held : List Bytes → List SizedRecord
  | [] => []
  | bytes :: rest =>
    match Line.ofBytes bytes with
    | .blank => held rest
    | .holding record size => (record, size) :: held rest
    | _ => []

/-- Every line is blank or holds a record. -/
def AreSound (lines : List Bytes) : Prop :=
  ∀ bytes ∈ lines, (Line.ofBytes bytes).IsSound

/-- The records that an export has left: the pending one, and those of its lines. -/
def left (source : JsonLines) : List SizedRecord :=
  source.pending.toList ++ (source.lines.toOption.map held).getD []

/-- The export can be read to its end. -/
def IsWhole (source : JsonLines) : Prop :=
  ∃ lines, source.lines = .ok lines ∧ AreSound lines

variable {request : BatchRequest} {source : JsonLines} {front : List SizedRecord}
  {lines : List Bytes}

/-! ## The batch that is being filled -/

/-- A batch that has been filled with some records. -/
def Filling.ofSized (front : List SizedRecord) : Filling :=
  ⟨(front.map Prod.fst).reverse, front.length, total (front.map Prod.snd)⟩

theorem Filling.push_ofSized (front : List SizedRecord) (record : Record) (size : Nat) :
    (ofSized front).push record size = ofSized (front ++ [(record, size)]) := by
  simp only [push, ofSized, List.map_append, List.map_cons, List.map_nil, List.reverse_append,
    List.reverse_singleton, List.singleton_append, List.length_append, List.length_singleton,
    total_append, total_cons, total_nil, Nat.add_zero]

theorem Filling.finish?_ofSized (some : front ≠ []) :
    (ofSized front).finish? = .some (.ofSized front) := by
  have positive : front.length ≠ 0 := mt List.length_eq_zero_iff.mp some
  simp only [finish?, ofSized, positive, if_false, List.reverse_reverse]
  rfl

theorem Filling.isOver_ofSized {size : Nat} : (ofSized front).isOver request size = true ↔
    front ≠ [] ∧ request.maxBytes < total (front.map Prod.snd) + size := by
  rw [isOver, Bool.and_eq_true, bne_iff_ne, decide_eq_true_iff]
  exact and_congr_left' (not_congr List.length_eq_zero_iff)

/-! ## All calls -/

theorem left_eq (source : JsonLines) {pending : Option SizedRecord}
    (some : source.lines = .ok lines) (kept : source.pending = pending) :
    source.left = pending.toList ++ held lines := by
  rw [left, some, kept]
  rfl

theorem isWhole_iff (some : source.lines = .ok lines) : source.IsWhole ↔ AreSound lines := by
  constructor
  · rintro ⟨other, same, sound⟩
    cases some.symm.trans same
    exact sound
  · exact fun sound => ⟨lines, some, sound⟩

theorem areSound_nil : AreSound [] :=
  fun _ none => absurd none List.not_mem_nil

theorem areSound_cons {bytes : Bytes} :
    AreSound (bytes :: lines) ↔ (Line.ofBytes bytes).IsSound ∧ AreSound lines :=
  List.forall_mem_cons

/-- Handing out what has been filled leaves what stands behind it. -/
theorem answers_finish {records behind : List SizedRecord} {whole : Prop} {after : JsonLines}
    (left : after.left = behind) (bounds : request.Bounds front)
    (split : request.wanted records = front ++ request.wanted behind)
    (full : ∀ following ∈ (request.wanted behind).head?, ¬ request.Bounds (front ++ [following]))
    (same : after.IsWhole ↔ whole) :
    request.Answers [records] whole (.ok (Filling.ofSized front).finish?) [after.left]
      after.IsWhole := by
  rw [Filling.finish?_ofSized bounds.nonempty, left]
  exact .batch (.here bounds split full) same

/-- Filling a batch that holds some records already takes these and then what the lines hold. -/
theorem answers_fill {records : List SizedRecord} {whole : Prop}
    (positive : 0 < request.maxDocuments) (nothing : source.pending = none)
    (admits : request.Admits front)
    (split : request.wanted records = front ++ request.wanted (held lines))
    (sound : AreSound lines ↔ whole) :
    request.Answers [records] whole (fill request source (.ofSized front) lines).1
      [(fill request source (.ofSized front) lines).2.left]
      (fill request source (.ofSized front) lines).2.IsWhole := by
  induction lines generalizing source front with
  | nil =>
    have left := left_eq { source with lines := .ok [] } rfl nothing
    by_cases some : front = []
    · subst some
      refine .ended (sound.mp areSound_nil) ?_ ((isWhole_iff rfl).mpr areSound_nil) ?_
      · rw [List.flatten_singleton, split]
        rfl
      · rw [List.flatten_singleton]
        exact congrArg request.wanted left
    · exact answers_finish left (admits.resolve_left some) split nofun
        ((isWhole_iff rfl).trans sound)
  | cons bytes rest ih =>
    rw [fill]
    split
    · next full =>
      have some : front ≠ [] := by
        rintro rfl
        exact absurd positive (Nat.not_lt.mpr full)
      exact answers_finish (left_eq _ rfl nothing) (admits.resolve_left some) split
        (fun following _ => BatchRequest.not_bounds_of_count full following)
        ((isWhole_iff rfl).trans sound)
    · next room =>
      have count : front.length < request.maxDocuments := Nat.not_le.mp room
      rw [areSound_cons] at sound
      rw [held] at split
      cases line : Line.ofBytes bytes with
      | notText | notRecord =>
        rw [line] at sound
        exact .failed fun isWhole => (sound.mpr isWhole).1
      | blank =>
        rw [line] at sound split
        exact ih nothing admits split ((and_iff_right trivial).symm.trans sound)
      | holding record size =>
        rw [line] at sound split
        have soundRest : AreSound rest ↔ whole := (and_iff_right trivial).symm.trans sound
        by_cases accepted : request.acceptsRecord record
        · have first : request.wanted ((record, size) :: held rest) =
              (record, size) :: request.wanted (held rest) :=
            List.filter_cons_of_pos accepted
          simp only [accepted, Bool.not_true, Bool.false_eq_true, if_false]
          split
          · next isOver =>
            obtain ⟨some, excess⟩ := Filling.isOver_ofSized.mp isOver
            refine answers_finish (left_eq _ rfl rfl) (admits.resolve_left some) split ?_
              ((isWhole_iff rfl).trans soundRest)
            intro following head
            cases (congrArg List.head? first).symm.trans head
            exact BatchRequest.not_bounds_of_size some excess
          · next small =>
            rw [Filling.push_ofSized]
            refine ih nothing (.inr (BatchRequest.bounds_concat count fun excess =>
              small (Filling.isOver_ofSized.mpr excess))) ?_ soundRest
            rw [split, first, List.append_assoc]
            rfl
        · have none : request.wanted ((record, size) :: held rest) = request.wanted (held rest) :=
            List.filter_cons_of_neg accepted
          rw [none] at split
          simp only [accepted, Bool.not_false, if_true]
          exact ih nothing admits split soundRest

theorem answers_fillFromLines {records : List SizedRecord} (positive : 0 < request.maxDocuments)
    (nothing : source.pending = none) (admits : request.Admits front)
    (split : request.wanted records = front ++ request.wanted source.left) {whole : Prop}
    (same : source.IsWhole ↔ whole) :
    request.Answers [records] whole (fillFromLines request source (.ofSized front)).1
      [(fillFromLines request source (.ofSized front)).2.left]
      (fillFromLines request source (.ofSized front)).2.IsWhole := by
  unfold fillFromLines
  cases lines : source.lines with
  | ok lines =>
    rw [left_eq source ‹_› nothing] at split
    exact answers_fill positive nothing admits split ((isWhole_iff ‹_›).symm.trans same)
  | error reason =>
    have spoilt : ¬ source.IsWhole := by
      rintro ⟨other, some, -⟩
      cases lines.symm.trans some
    dsimp only
    split
    · next full =>
      have some : front ≠ [] := by
        rintro rfl
        exact absurd positive (Nat.not_lt.mpr full)
      exact answers_finish rfl (admits.resolve_left some) split
        (fun following _ => BatchRequest.not_bounds_of_count full following) same
    · exact .failed fun isWhole => spoilt (same.mpr isWhole)

/-- Whatever an export answers, it answers from what it has left. -/
theorem answers_next (positive : 0 < request.maxDocuments) (source : JsonLines) :
    request.Answers [source.left] source.IsWhole (source.next request).1
      [(source.next request).2.left] (source.next request).2.IsWhole := by
  unfold next
  cases pending : source.pending with
  | none => exact answers_fillFromLines positive pending (.inl rfl) rfl Iff.rfl
  | some sized =>
    obtain ⟨record, size⟩ := sized
    have left : source.left = (record, size) :: ({ source with pending := none } : JsonLines).left := by
      rw [JsonLines.left, pending]
      rfl
    simp only [Nat.pos_iff_ne_zero.mp positive, if_false]
    rw [left]
    split
    · next accepted =>
      have alone : request.Bounds ([] ++ [(record, size)]) :=
        BatchRequest.bounds_concat positive fun excess => excess.1 rfl
      have first : Filling.push {} record size = .ofSized ([] ++ [(record, size)]) :=
        Filling.push_ofSized [] record size
      rw [first]
      refine answers_fillFromLines positive rfl (.inr alone) ?_ Iff.rfl
      exact List.filter_cons_of_pos accepted
    · next refused =>
      refine answers_fillFromLines positive rfl (.inl rfl) ?_ Iff.rfl
      exact List.filter_cons_of_neg refused

end TreeExport.JsonLines
