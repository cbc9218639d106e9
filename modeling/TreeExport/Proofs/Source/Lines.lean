import TreeExport.Proofs.Source.JsonLines
import TreeExport.Proofs.Text.Utf8

/-!
# What an export says of its lines

An export that is asked again and again goes through its lines in order.  What it has handed out, what
is pending and what it has skipped make up the records of the lines that it has been through
(`JsonLines.Stands`), however the bounds of the requests cut them; so a line that is no record ends the
answers, under its own number (`JsonLines.reports_malformed`).
-/

namespace TreeExport.JsonLines

/-! ## Answers and what they leave -/

/-- The export after it has answered a request some times. -/
def after (request : BatchRequest) (source : JsonLines) : Nat → JsonLines
  | 0 => source
  | times + 1 => after request (source.next request).2 times

/-- What the export answers to a request after it has answered it some times. -/
def reply (request : BatchRequest) (source : JsonLines) (times : Nat) :
    Except Error (Option RecordBatch) :=
  ((source.after request times).next request).1

variable {request : BatchRequest} {source : JsonLines} {path : String}
  {all seen rest lines : List Bytes} {bytes : Bytes} {gone front part : List SizedRecord}
  {record : Record} {size : Nat}

theorem held_append (sound : AreSound seen) (rest : List Bytes) :
    held (seen ++ rest) = held seen ++ held rest := by
  induction seen with
  | nil => rfl
  | cons bytes seen ih =>
    rcases areSound_cons.mp sound with ⟨here, later⟩
    rw [List.cons_append, held, held, ih later]
    cases line : Line.ofBytes bytes with
    | blank => rfl
    | holding record size => rfl
    | notText | notRecord =>
      rw [line] at here
      exact here.elim

theorem areSound_concat (sound : AreSound seen) (here : (Line.ofBytes bytes).IsSound) :
    AreSound (seen ++ [bytes]) := by
  intro other member
  rcases List.mem_append.mp member with before | last
  · exact sound other before
  · rw [List.mem_singleton.mp last]
    exact here

theorem held_singleton_blank (line : Line.ofBytes bytes = .blank) : held [bytes] = [] := by
  rw [held, line]
  rfl

theorem held_singleton (line : Line.ofBytes bytes = .holding record size) :
    held [bytes] = [(record, size)] := by
  rw [held, line]
  rfl

/-- The export has been through some lines: their number is its line, and each of their records has
been handed out, is pending, or has been skipped because it is not wanted. -/
structure Stands (request : BatchRequest) (path : String) (seen : List Bytes)
    (gone : List SizedRecord) (source : JsonLines) : Prop where
  path_eq : source.path = path
  line : source.line = seen.length
  sound : AreSound seen
  split : request.wanted (held seen) = gone ++ source.pending.toList
  skipped : source.skipped + (request.wanted (held seen)).length = (held seen).length

namespace Stands

theorem withLines (stands : Stands request path seen gone source)
    (lines : Except String (List Bytes)) :
    Stands request path seen gone { source with lines := lines } :=
  ⟨stands.path_eq, stands.line, stands.sound, stands.split, stands.skipped⟩

theorem blank (stands : Stands request path seen gone source)
    (line : Line.ofBytes bytes = .blank) :
    Stands request path (seen ++ [bytes]) gone { source with line := source.line + 1 } := by
  have same : held (seen ++ [bytes]) = held seen := by
    rw [held_append stands.sound, held_singleton_blank line, List.append_nil]
  refine ⟨stands.path_eq, ?_, areSound_concat stands.sound (by rw [line]; trivial), ?_, ?_⟩
  · rw [List.length_append, List.length_singleton, stands.line]
  · rw [same]
    exact stands.split
  · rw [same]
    exact stands.skipped

theorem held_concat (stands : Stands request path seen gone source)
    (line : Line.ofBytes bytes = .holding record size) :
    held (seen ++ [bytes]) = held seen ++ [(record, size)] := by
  rw [held_append stands.sound, held_singleton line]

theorem skip (stands : Stands request path seen gone source)
    (line : Line.ofBytes bytes = .holding record size)
    (refused : request.acceptsRecord record = false) :
    Stands request path (seen ++ [bytes]) gone
      { source with line := source.line + 1, skipped := source.skipped + 1 } := by
  have same : request.wanted (held (seen ++ [bytes])) = request.wanted (held seen) := by
    rw [stands.held_concat line, BatchRequest.wanted_append,
      show request.wanted [(record, size)] = [] from List.filter_cons_of_neg (by simp [refused]),
      List.append_nil]
  refine ⟨stands.path_eq, ?_, areSound_concat stands.sound (by rw [line]; trivial), ?_, ?_⟩
  · rw [List.length_append, List.length_singleton, stands.line]
  · rw [same]
    exact stands.split
  · have before := stands.skipped
    rw [same, stands.held_concat line, List.length_append, List.length_singleton]
    dsimp only
    omega

/-- A record that is wanted is taken into the batch, or it is kept for the next one. -/
theorem meets (stands : Stands request path seen gone source) (nothing : source.pending = none)
    (line : Line.ofBytes bytes = .holding record size)
    (accepted : request.acceptsRecord record = true) {behind : JsonLines}
    (path_eq : behind.path = source.path) (line_eq : behind.line = source.line + 1)
    (skipped : behind.skipped = source.skipped) {taken : List SizedRecord}
    (split : taken ++ behind.pending.toList = gone ++ [(record, size)]) :
    Stands request path (seen ++ [bytes]) taken behind := by
  have wanted : request.wanted (held (seen ++ [bytes])) = gone ++ [(record, size)] := by
    have before := stands.split
    rw [nothing] at before
    rw [stands.held_concat line, BatchRequest.wanted_append, before,
      show request.wanted [(record, size)] = [(record, size)] from List.filter_cons_of_pos accepted]
    exact congrArg (· ++ _) (List.append_nil gone)
  refine ⟨path_eq.trans stands.path_eq, ?_, areSound_concat stands.sound (by rw [line]; trivial),
    wanted.trans split.symm, ?_⟩
  · rw [line_eq, List.length_append, List.length_singleton, stands.line]
  · have before := stands.skipped
    rw [stands.split, nothing] at before
    rw [wanted, skipped, stands.held_concat line]
    simp only [Option.toList_none, List.append_nil, List.length_append, List.length_singleton] at *
    omega

end Stands

/-! ## One answer -/

/-- What an export can answer that has been through some of its lines: a batch, none at the end of the
lines, or that the line which comes next is no record. -/
inductive Tells (request : BatchRequest) (path : String) (all : List Bytes)
    (gone : List SizedRecord) : Except Error (Option RecordBatch) → JsonLines → Prop
  | batch {seen rest : List Bytes} {part : List SizedRecord} {behind : JsonLines}
      (lines : behind.lines = .ok rest) (split : seen ++ rest = all) (filled : part ≠ [])
      (stands : Stands request path seen (gone ++ part) behind) :
      Tells request path all gone (.ok (some (.ofSized part))) behind
  | ended {behind : JsonLines} (lines : behind.lines = .ok [])
      (nothing : behind.pending = none) (stands : Stands request path all gone behind) :
      Tells request path all gone (.ok none) behind
  | failed {seen rest : List Bytes} {bad : Bytes} {front : List SizedRecord} {behind : JsonLines}
      (split : seen ++ bad :: rest = all) (sound : AreSound seen)
      (line : Line.ofBytes bad = .notRecord)
      (missing : request.wanted (held seen) = gone ++ front)
      (few : front.length < request.maxDocuments) :
      Tells request path all gone
        (.error (.source s!"{path}:{seen.length + 1}: invalid record")) behind

theorem Tells.finish {behind : JsonLines} (lines : behind.lines = .ok rest)
    (split : seen ++ rest = all) (filled : front ≠ [])
    (stands : Stands request path seen (gone ++ front) behind) :
    Tells request path all gone (.ok (Filling.ofSized front).finish?) behind := by
  rw [Filling.finish?_ofSized filled]
  exact .batch lines split filled stands

/-- Whatever a batch is filled with that holds some records already. -/
theorem tells_fill (positive : 0 < request.maxDocuments)
    (texts : ∀ bytes ∈ lines, Line.ofBytes bytes ≠ .notText) (split : seen ++ lines = all)
    (nothing : source.pending = none)
    (stands : Stands request path seen (gone ++ front) source) :
    Tells request path all gone (fill request source (.ofSized front) lines).1
      (fill request source (.ofSized front) lines).2 := by
  induction lines generalizing source front seen with
  | nil =>
    rw [fill]
    by_cases filled : front = []
    · subst filled
      rw [List.append_nil] at split stands
      exact .ended rfl nothing (split ▸ stands.withLines _)
    · exact .finish rfl split filled (stands.withLines _)
  | cons bytes rest ih =>
    have here := texts bytes List.mem_cons_self
    have later : ∀ bytes ∈ rest, Line.ofBytes bytes ≠ .notText :=
      fun other member => texts other (List.mem_cons_of_mem _ member)
    have onwards : seen ++ [bytes] ++ rest = all := by
      rw [List.append_assoc]
      exact split
    rw [fill]
    split
    · next full =>
      have filled : front ≠ [] := by
        rintro rfl
        exact absurd positive (Nat.not_lt.mpr full)
      exact .finish rfl split filled (stands.withLines _)
    · next room =>
      have count : front.length < request.maxDocuments := Nat.not_le.mp room
      cases line : Line.ofBytes bytes with
      | notText => exact absurd line here
      | notRecord =>
        have missing := stands.split
        rw [nothing, Option.toList_none, List.append_nil] at missing
        rw [stands.path_eq, stands.line]
        exact .failed split stands.sound line missing count
      | blank => exact ih later onwards nothing (stands.blank line)
      | holding record size =>
        cases accepted : request.acceptsRecord record with
        | false =>
          simp only [accepted, Bool.not_false, if_true]
          exact ih later onwards nothing (stands.skip line accepted)
        | true =>
          simp only [accepted, Bool.not_true, Bool.false_eq_true, if_false]
          split
          · next isOver =>
            have filled := (Filling.isOver_ofSized.mp isOver).1
            refine .finish rfl onwards filled (stands.meets nothing line accepted ?_ ?_ ?_ ?_) <;> rfl
          · rw [Filling.push_ofSized]
            refine ih later onwards nothing (stands.meets nothing line accepted ?_ ?_ ?_ ?_)
            · rfl
            · rfl
            · rfl
            · rw [nothing, Option.toList_none, List.append_nil, List.append_assoc]

/-- Whatever an export answers that has been through some of its lines. -/
theorem tells_next (positive : 0 < request.maxDocuments)
    (texts : ∀ bytes ∈ rest, Line.ofBytes bytes ≠ .notText) (split : seen ++ rest = all)
    (lines : source.lines = .ok rest) (stands : Stands request path seen gone source) :
    Tells request path all gone (source.next request).1 (source.next request).2 := by
  unfold next
  cases pending : source.pending with
  | none =>
    have start : Stands request path seen (gone ++ []) source := by
      rw [List.append_nil]
      exact stands
    simp only [fillFromLines, lines]
    exact tells_fill positive texts split pending start
  | some sized =>
    rcases sized with ⟨record, size⟩
    have kept := stands.split
    rw [pending] at kept
    have accepted : request.acceptsRecord record = true := by
      have member : (record, size) ∈ request.wanted (held seen) := by
        rw [kept]
        exact List.mem_append_right _ List.mem_cons_self
      exact (List.mem_filter.mp member).2
    have first : Filling.push {} record size = .ofSized [(record, size)] :=
      Filling.push_ofSized [] record size
    simp only [Nat.pos_iff_ne_zero.mp positive, if_false, accepted, if_true, fillFromLines, lines,
      first]
    refine tells_fill positive texts split rfl ?_
    refine ⟨stands.path_eq, stands.line, stands.sound, ?_, stands.skipped⟩
    rw [kept]
    exact (List.append_nil _).symm

/-! ## All answers -/

theorem after_add (request : BatchRequest) (source : JsonLines) (times more : Nat) :
    source.after request (times + more) = (source.after request times).after request more := by
  induction times generalizing source with
  | zero => rw [Nat.zero_add, after]
  | succ times ih => rw [Nat.succ_add, after, after, ih]

theorem reply_add (request : BatchRequest) (source : JsonLines) (times more : Nat) :
    source.reply request (times + more) = (source.after request times).reply request more := by
  rw [reply, reply, after_add]

/-- What an export hands out is among the wanted records of its lines. -/
theorem Stands.length_le (stands : Stands request path seen gone source)
    (split : seen ++ rest = all) : gone.length ≤ (request.wanted (held all)).length := by
  rw [← split, held_append stands.sound, BatchRequest.wanted_append, stands.split]
  simp only [List.length_append]
  omega

/-- An export hands out batches until it answers with something else, and tells all the time what it
should. -/
theorem Stands.exists_parts {source : JsonLines} {seen rest : List Bytes}
    {gone : List SizedRecord} (positive : 0 < request.maxDocuments)
    (texts : ∀ bytes ∈ all, Line.ofBytes bytes ≠ .notText) (split : seen ++ rest = all)
    (lines : source.lines = .ok rest) (stands : Stands request path seen gone source) :
    ∃ parts : List (List SizedRecord),
      (∀ n < parts.length, source.reply request n = .ok (parts.map RecordBatch.ofSized)[n]?) ∧
      (∀ batch, source.reply request parts.length ≠ .ok (some batch)) ∧
      Tells request path all (gone ++ parts.flatten) (source.reply request parts.length)
        (source.after request (parts.length + 1)) := by
  have here : ∀ bytes ∈ rest, Line.ofBytes bytes ≠ .notText := by
    intro bytes member
    refine texts bytes ?_
    rw [← split]
    exact List.mem_append_right _ member
  have tells := tells_next positive here split lines stands
  rcases asked : source.next request with ⟨answer, behind⟩
  rw [asked] at tells
  have first : source.reply request 0 = answer := congrArg Prod.fst asked
  have second : source.after request 1 = behind := congrArg Prod.snd asked
  cases tells with
  | ended linesAfter nothing standsAfter =>
    refine ⟨[], nofun, fun batch same => ?_, ?_⟩
    · cases first.symm.trans same
    · rw [List.flatten_nil, List.append_nil, List.length_nil, first, second]
      exact .ended linesAfter nothing standsAfter
  | failed splitAfter sound line missing few =>
    refine ⟨[], nofun, fun batch same => ?_, ?_⟩
    · cases first.symm.trans same
    · rw [List.flatten_nil, List.append_nil, List.length_nil, first, second]
      exact .failed splitAfter sound line missing few
  | @batch seenAfter restAfter part _ linesAfter splitAfter filled standsAfter =>
    have further : gone.length < (gone ++ part).length := by
      have positive := List.length_pos_iff.mpr filled
      rw [List.length_append]
      omega
    have within := standsAfter.length_le splitAfter
    rcases standsAfter.exists_parts positive texts splitAfter linesAfter with
      ⟨parts, batches, stops, last⟩
    have shifted (n : Nat) : source.reply request (n + 1) = behind.reply request n := by
      rw [Nat.add_comm, reply_add, second]
    refine ⟨part :: parts, fun n below => ?_, ?_, ?_⟩
    · cases n with
      | zero =>
        rw [first]
        rfl
      | succ n =>
        rw [shifted, batches n (Nat.lt_of_succ_lt_succ below)]
        rfl
    · rw [List.length_cons, shifted]
      exact stops
    · have left : source.after request (parts.length + 1 + 1) =
          behind.after request (parts.length + 1) := by
        rw [Nat.add_comm, after_add, second]
      rw [List.length_cons, shifted, left, List.flatten_cons, ← List.append_assoc]
      exact last
termination_by (request.wanted (held all)).length - gone.length
decreasing_by omega

/-- An export that has come to its end stays there. -/
theorem after_of_ended (lines : source.lines = .ok []) (nothing : source.pending = none) (n : Nat) :
    source.after request n = source ∧ source.reply request n = .ok none := by
  have next : source.next request = (.ok none, source) := by
    rcases source with ⟨path, lines', line, pending, skipped⟩
    cases lines
    cases nothing
    rfl
  have stays : source.after request n = source := by
    induction n with
    | zero => rfl
    | succ n ih => rw [after, next, ih]
  exact ⟨stays, by rw [reply, stays, next]⟩

/-- Where every line is blank or holds a record, all wanted records are handed out and all others have
been skipped in the end. -/
theorem Stands.exists_batches (positive : 0 < request.maxDocuments) (sound : AreSound all)
    (split : seen ++ rest = all) (lines : source.lines = .ok rest)
    (stands : Stands request path seen [] source) :
    ∃ parts : List (List SizedRecord),
      (∀ n, source.reply request n = .ok (parts.map RecordBatch.ofSized)[n]?) ∧
      parts.flatten = request.wanted (held all) ∧
      ∀ n > parts.length,
        (source.after request n).skipped + parts.flatten.length = (held all).length := by
  have texts : ∀ bytes ∈ all, Line.ofBytes bytes ≠ .notText := by
    intro bytes member notText
    have here := sound bytes member
    rw [notText] at here
    exact here
  rcases stands.exists_parts positive texts split lines with ⟨parts, batches, stops, last⟩
  rcases answered : source.reply request parts.length with answer
  rw [answered] at last
  cases last with
  | batch => exact absurd answered (stops _)
  | @failed _ _ bad _ _ splitAfter _ line =>
    have member : bad ∈ all := by
      rw [← splitAfter]
      exact List.mem_append_right _ List.mem_cons_self
    have here := sound bad member
    rw [line] at here
    exact here.elim
  | ended linesAfter nothing standsAfter =>
    have all_gone := standsAfter.split
    rw [nothing, Option.toList_none, List.append_nil, List.nil_append] at all_gone
    refine ⟨parts, fun n => ?_, all_gone.symm, fun n above => ?_⟩
    · rcases Nat.lt_trichotomy n parts.length with below | rfl | above
      · exact batches n below
      · rw [answered, List.getElem?_eq_none (Nat.le_of_eq (List.length_map _))]
      · rcases Nat.exists_eq_add_of_lt above with ⟨more, rfl⟩
        rw [Nat.add_right_comm, reply_add, (after_of_ended linesAfter nothing more).2,
          List.getElem?_eq_none (by rw [List.length_map]; omega)]
    · rcases Nat.exists_eq_add_of_lt above with ⟨more, rfl⟩
      rw [Nat.add_right_comm, after_add, (after_of_ended linesAfter nothing more).1, ← all_gone]
      exact standsAfter.skipped

/-- Two ways to part lines at the first one that is neither blank nor holds a record are one. -/
theorem parted_unique {others later : List Bytes} {bad other : Bytes} (sound : AreSound seen)
    (sound' : AreSound others) (unsound : ¬ (Line.ofBytes bad).IsSound)
    (unsound' : ¬ (Line.ofBytes other).IsSound)
    (same : seen ++ bad :: rest = others ++ other :: later) : seen = others := by
  induction seen generalizing others with
  | nil =>
    cases others with
    | nil => rfl
    | cons first others =>
      cases same
      exact absurd (areSound_cons.mp sound').1 unsound
  | cons first seen ih =>
    cases others with
    | nil =>
      cases same
      exact absurd (areSound_cons.mp sound).1 unsound'
    | cons head others =>
      rcases List.cons.inj same with ⟨rfl, tails⟩
      rw [ih (areSound_cons.mp sound).2 (areSound_cons.mp sound').2 tails]

/-- Where a line is no record and those before it are sound, the answers end with a failure that tells
its number, and less than a full batch of the wanted records before it has not been handed out. -/
theorem Stands.exists_failure (positive : 0 < request.maxDocuments)
    (texts : ∀ bytes ∈ all, Line.ofBytes bytes ≠ .notText) (split : seen ++ rest = all)
    (lines : source.lines = .ok rest) (stands : Stands request path seen [] source)
    {before behind : List Bytes} {bad : Bytes} (parted : before ++ bad :: behind = all)
    (sound : AreSound before) (line : Line.ofBytes bad = .notRecord) :
    ∃ (parts : List (List SizedRecord)) (missing : List SizedRecord),
      (∀ n < parts.length, source.reply request n = .ok (parts.map RecordBatch.ofSized)[n]?) ∧
      source.reply request parts.length =
        .error (.source s!"{path}:{before.length + 1}: invalid record") ∧
      request.wanted (held before) = parts.flatten ++ missing ∧
      missing.length < request.maxDocuments := by
  have unsound : ¬ (Line.ofBytes bad).IsSound := by
    rw [line]
    exact id
  rcases stands.exists_parts positive texts split lines with ⟨parts, batches, stops, last⟩
  rcases answered : source.reply request parts.length with answer
  rw [answered] at last
  cases last with
  | batch => exact absurd answered (stops _)
  | ended linesAfter nothing standsAfter =>
    refine absurd (standsAfter.sound bad ?_) unsound
    rw [← parted]
    exact List.mem_append_right _ List.mem_cons_self
  | @failed seenAfter _ other missing _ splitAfter soundAfter lineAfter kept few =>
    have unsoundAfter : ¬ (Line.ofBytes other).IsSound := by
      rw [lineAfter]
      exact id
    cases parted_unique sound soundAfter unsound unsoundAfter (parted.trans splitAfter.symm)
    exact ⟨parts, missing, batches, answered, kept, few⟩

/-! ## The lines of a text -/

/-- The lines of a text, without the blanks around them. -/
def linesOf (text : String) : List String :=
  (text.toList.splitOn '\n').map fun line => Text.trim (String.ofList line)

theorem newLine_notMem {c : Char} (other : c ≠ '\n') : newLine ∉ String.utf8EncodeChar c := by
  intro member
  have code := Utf8.eq_of_mem_charBytes (Utf8.charBytes_encodeChar c) (by decide) member
  exact other (Char.toNat_inj.mp code)

theorem splitLines_append {front : Bytes} (absent : newLine ∉ front) (current rest : Bytes) :
    splitLines current (front ++ rest) = splitLines (front.reverse ++ current) rest := by
  induction front generalizing current with
  | nil => rfl
  | cons b front ih =>
    have other : b ≠ newLine := fun same => absent (same ▸ List.mem_cons_self)
    have later : newLine ∉ front := fun member => absent (List.mem_cons_of_mem _ member)
    rw [List.cons_append, splitLines, if_neg other, ih later, List.reverse_cons,
      List.append_assoc, List.singleton_append]

/-- The lines of the bytes of a text are the bytes of its lines, but that an empty line at the end is
none. -/
theorem splitLines_encodeChars (cs : List Char) (current : Bytes) :
    ∃ first others, cs.splitOn '\n' = first :: others ∧
      let lines := (current.reverse ++ first.flatMap String.utf8EncodeChar) ::
        others.map fun line => line.flatMap String.utf8EncodeChar
      splitLines current (cs.flatMap String.utf8EncodeChar) = lines ∨
        splitLines current (cs.flatMap String.utf8EncodeChar) ++ [[]] = lines := by
  induction cs generalizing current with
  | nil =>
    refine ⟨[], [], List.splitOn_nil _, ?_⟩
    rw [List.flatMap_nil, List.append_nil, splitLines]
    cases current with
    | nil => exact .inr rfl
    | cons b current => exact .inl rfl
  | cons c cs ih =>
    rw [List.splitOn_cons_eq_if_modifyHead, List.flatMap_cons]
    by_cases newline : c = '\n'
    · subst newline
      rcases ih [] with ⟨first, others, split, same⟩
      refine ⟨[], first :: others, by rw [split]; rfl, ?_⟩
      have bytes : String.utf8EncodeChar '\n' = [newLine] := by decide
      rw [bytes, List.singleton_append, splitLines, if_pos rfl, List.flatMap_nil, List.append_nil]
      exact same.imp (congrArg (List.cons _)) (congrArg (List.cons _))
    · rcases ih ((String.utf8EncodeChar c).reverse ++ current) with ⟨first, others, split, same⟩
      refine ⟨c :: first, others, ?_, ?_⟩
      · rw [if_neg (by simpa using newline), split, List.modifyHead_cons]
      · rw [splitLines_append (newLine_notMem newline), List.flatMap_cons, ← List.append_assoc]
        rw [List.reverse_append, List.reverse_reverse] at same
        exact same

/-- The texts are the lines of another one, but that they may leave out an empty line at its end. -/
def AreLinesOf (texts : List String) (text : String) : Prop :=
  linesOf text = texts.map Text.trim ∨ linesOf text = texts.map Text.trim ++ [""]

/-- The lines that are read of a text are its lines, but for an empty one at the end. -/
theorem exists_splitLines_encode (text : String) : ∃ texts : List String,
    splitLines [] (Utf8.encode text) = texts.map Utf8.encode ∧ AreLinesOf texts text := by
  rcases splitLines_encodeChars text.toList [] with ⟨first, others, split, same⟩
  have whole : (first :: others).map (fun line => line.flatMap String.utf8EncodeChar) =
      ((first :: others).map String.ofList).map Utf8.encode := by
    rw [List.map_map]
    refine List.map_congr_left fun line _ => ?_
    rw [Function.comp_apply, Utf8.encode, String.toList_ofList]
  rcases same with same | same
  · refine ⟨(first :: others).map String.ofList, same.trans whole, .inl ?_⟩
    rw [linesOf, split, List.map_map]
    rfl
  · -- the last of the lines is the empty one
    have last := same.trans whole
    rcases List.eq_nil_or_concat ((first :: others).map String.ofList) with none | ⟨front, text', concat⟩
    · cases none
    · rw [concat, List.concat_eq_append, List.map_append] at last
      rcases List.append_inj' last rfl with ⟨same, empty⟩
      have nothing : text' = "" := by
        have bytes : Utf8.encode text' = Utf8.encode "" := (List.singleton_inj.mp empty).symm
        have decoded := congrArg Utf8.decode bytes
        rw [Utf8.decode_encode, Utf8.decode_encode] at decoded
        exact Except.ok.inj decoded
      refine ⟨front, same, .inr ?_⟩
      have lines : linesOf text = ((first :: others).map String.ofList).map Text.trim := by
        rw [linesOf, split, List.map_map]
        rfl
      rw [lines, concat, List.concat_eq_append, List.map_append, nothing]
      rfl

/-! ### What is read of a line of a text -/

variable {text : String} {texts : List String}

theorem Line.ofBytes_encode_of_blank (blank : Text.trim text = "") :
    Line.ofBytes (Utf8.encode text) = .blank := by
  simp only [Line.ofBytes, Utf8.decode_encode, blank, String.isEmpty_iff, if_true]

theorem Line.ofBytes_encode_of_some (read : Record.read? (Text.trim text) = some record) :
    Line.ofBytes (Utf8.encode text) = .holding record (Utf8.size (Text.trim text)) := by
  have filled : Text.trim text ≠ "" := by
    intro blank
    rw [blank] at read
    cases read
  simp only [Line.ofBytes, Utf8.decode_encode, String.isEmpty_iff, filled, if_false, read]

theorem Line.ofBytes_encode_of_none (filled : Text.trim text ≠ "")
    (read : Record.read? (Text.trim text) = none) :
    Line.ofBytes (Utf8.encode text) = .notRecord := by
  simp only [Line.ofBytes, Utf8.decode_encode, String.isEmpty_iff, filled, if_false, read]

theorem Line.ofBytes_encode_ne_notText (text : String) :
    Line.ofBytes (Utf8.encode text) ≠ .notText := by
  simp only [Line.ofBytes, Utf8.decode_encode]
  split
  · exact nofun
  · split <;> exact nofun

/-- Every line is blank or holds a record, as text. -/
def AreValid (lines : List String) : Prop :=
  ∀ line ∈ lines, line ≠ "" → (Record.read? line).isSome

theorem areSound_of_areValid (valid : AreValid (texts.map Text.trim)) :
    AreSound (texts.map Utf8.encode) := by
  intro bytes member
  rcases List.mem_map.mp member with ⟨text, listed, rfl⟩
  by_cases blank : Text.trim text = ""
  · rw [Line.ofBytes_encode_of_blank blank]
    trivial
  · rcases Option.isSome_iff_exists.mp (valid _ (List.mem_map_of_mem listed) blank) with ⟨record, read⟩
    rw [Line.ofBytes_encode_of_some read]
    trivial

/-- The records of valid lines are what is read of them, one for every line that is not blank. -/
theorem map_fst_held (valid : AreValid (texts.map Text.trim)) :
    (held (texts.map Utf8.encode)).map Prod.fst = (texts.map Text.trim).filterMap Record.read? ∧
      (held (texts.map Utf8.encode)).length = ((texts.map Text.trim).filter (· ≠ "")).length := by
  induction texts with
  | nil => exact ⟨rfl, rfl⟩
  | cons text texts ih =>
    rcases List.forall_mem_cons.mp valid with ⟨here, later⟩
    rcases ih later with ⟨records, length⟩
    simp only [List.map_cons]
    by_cases blank : Text.trim text = ""
    · rw [held, Line.ofBytes_encode_of_blank blank, blank]
      have none : Record.read? "" = none := rfl
      rw [List.filterMap_cons_none none, List.filter_cons_of_neg (by simp)]
      exact ⟨records, length⟩
    · rcases Option.isSome_iff_exists.mp (here blank) with ⟨record, read⟩
      rw [held, Line.ofBytes_encode_of_some read, List.filterMap_cons_some read,
        List.filter_cons_of_pos (by simpa using blank)]
      exact ⟨congrArg (List.cons record) records, congrArg Nat.succ length⟩

/-! ### The empty line at the end -/

theorem AreLinesOf.areValid (lines : AreLinesOf texts text) (valid : AreValid (linesOf text)) :
    AreValid (texts.map Text.trim) := by
  intro line member
  refine valid line ?_
  rcases lines with same | same <;> rw [same]
  · exact member
  · exact List.mem_append_left _ member

theorem AreLinesOf.filterMap_read? (lines : AreLinesOf texts text) :
    (linesOf text).filterMap Record.read? = (texts.map Text.trim).filterMap Record.read? := by
  have blank : Record.read? "" = none := rfl
  rcases lines with same | same
  · rw [same]
  · rw [same, List.filterMap_append, List.filterMap_cons_none blank, List.filterMap_nil,
      List.append_nil]

theorem AreLinesOf.filter_ne (lines : AreLinesOf texts text) :
    (linesOf text).filter (· ≠ "") = (texts.map Text.trim).filter (· ≠ "") := by
  rcases lines with same | same
  · rw [same]
  · rw [same, List.filter_append, List.filter_cons_of_neg (by simp), List.filter_nil,
      List.append_nil]

/-- What comes before something that is not the last of all comes before it without the last, too. -/
theorem exists_of_concat {α : Type} {front back items : List α} {item last : α}
    (same : items ++ [last] = front ++ item :: back) (other : item ≠ last) :
    ∃ behind, items = front ++ item :: behind := by
  rcases List.eq_nil_or_concat back with rfl | ⟨behind, final, rfl⟩
  · rcases List.append_inj' same rfl with ⟨-, ends⟩
    exact absurd (List.singleton_inj.mp ends).symm other
  · rw [List.concat_eq_append, ← List.cons_append, ← List.append_assoc] at same
    exact ⟨behind, (List.append_inj' same rfl).1⟩

/-- What comes before a line that is not empty is the same. -/
theorem AreLinesOf.exists_append (lines : AreLinesOf texts text) {front back : List String}
    {line : String} (parted : linesOf text = front ++ line :: back) (filled : line ≠ "") :
    ∃ behind, texts.map Text.trim = front ++ line :: behind := by
  rcases lines with same | same
  · exact ⟨back, same.symm.trans parted⟩
  · exact exists_of_concat (same.symm.trans parted) filled

/-! ## Exports that are texts -/

/-- An export that has not been asked yet. -/
theorem stands_ofBytes (request : BatchRequest) (path : String) (content : Bytes) :
    Stands request path [] [] (ofBytes path content) :=
  ⟨rfl, rfl, areSound_nil, rfl, rfl⟩

theorem map_fst_wanted_held (valid : AreValid (texts.map Text.trim)) :
    (request.wanted (held (texts.map Utf8.encode))).map Prod.fst =
      ((texts.map Text.trim).filterMap Record.read?).filter request.acceptsRecord := by
  rw [BatchRequest.map_fst_wanted, (map_fst_held valid).1]

theorem flatMap_records_ofSized (parts : List (List SizedRecord)) :
    (parts.map RecordBatch.ofSized).flatMap RecordBatch.records = parts.flatten.map Prod.fst := by
  rw [List.flatMap_map, List.map_flatten, List.flatMap_def]
  rfl

/-- An export that is a text and is asked again and again for some records at a time.  If every line that
is not blank holds a record, it hands out all those that the request lets through, and then nothing any
more, and what it has handed out and what it has skipped are as many as these lines.  Else it ends
with a failure that tells the number of the first such line that holds none, however the bounds of the
request cut the batches; what it has handed out by then is what the request lets through of the lines
before, in order, but for less than a full batch. -/
theorem reports_malformed (path text : String) (request : BatchRequest)
    (positive : 0 < request.maxDocuments) :
    let source := ofBytes path (Utf8.encode text)
    (AreValid (linesOf text) →
      ∃ batches : List RecordBatch, (∀ n, source.reply request n = .ok batches[n]?) ∧
        batches.flatMap RecordBatch.records =
          ((linesOf text).filterMap Record.read?).filter request.acceptsRecord ∧
        ∀ n > batches.length,
          (batches.flatMap RecordBatch.records).length + (source.after request n).skipped =
            ((linesOf text).filter (· ≠ "")).length) ∧
    ∀ front bad back, linesOf text = front ++ bad :: back → AreValid front → bad ≠ "" →
      Record.read? bad = none →
      ∃ (batches : List RecordBatch) (missing : List Record),
        (∀ n < batches.length, source.reply request n = .ok batches[n]?) ∧
        source.reply request batches.length =
          .error (.source s!"{path}:{front.length + 1}: invalid record") ∧
        (front.filterMap Record.read?).filter request.acceptsRecord =
          batches.flatMap RecordBatch.records ++ missing ∧
        missing.length ≤ request.maxDocuments - 1 := by
  intro source
  rcases exists_splitLines_encode text with ⟨texts, split, linesOfText⟩
  have lines : source.lines = .ok (texts.map Utf8.encode) := congrArg Except.ok split
  have stands : Stands request path [] [] source := stands_ofBytes request path (Utf8.encode text)
  constructor
  · intro allValid
    have valid := linesOfText.areValid allValid
    rcases stands.exists_batches positive (areSound_of_areValid valid) rfl lines with
      ⟨parts, replies, whole, skipped⟩
    refine ⟨parts.map RecordBatch.ofSized, replies, ?_, fun n above => ?_⟩
    · rw [flatMap_records_ofSized, whole, map_fst_wanted_held valid, linesOfText.filterMap_read?]
    · rw [List.length_map] at above
      have count := skipped n above
      rw [flatMap_records_ofSized, List.length_map, Nat.add_comm, count, linesOfText.filter_ne]
      exact (map_fst_held valid).2
  · intro front bad back parted valid filled unread
    rcases linesOfText.exists_append parted filled with ⟨behind, partedTexts⟩
    rcases List.map_eq_append_iff.mp partedTexts with ⟨before, others, rfl, rfl, ends⟩
    rcases List.map_eq_cons_iff.mp ends with ⟨line, later, rfl, rfl, -⟩
    have texts : ∀ bytes ∈ (before ++ line :: later).map Utf8.encode,
        Line.ofBytes bytes ≠ .notText :=
      List.forall_mem_map.mpr fun other _ => Line.ofBytes_encode_ne_notText other
    have partedBytes : before.map Utf8.encode ++ Utf8.encode line :: later.map Utf8.encode =
        (before ++ line :: later).map Utf8.encode := by
      rw [List.map_append, List.map_cons]
    rcases stands.exists_failure positive texts rfl lines partedBytes (areSound_of_areValid valid)
      (Line.ofBytes_encode_of_none filled unread) with ⟨parts, missing, replies, failed, kept, few⟩
    refine ⟨parts.map RecordBatch.ofSized, missing.map Prod.fst, ?_, ?_, ?_, ?_⟩
    · rw [List.length_map]
      exact replies
    · rw [List.length_map, failed, List.length_map, List.length_map]
    · rw [← map_fst_wanted_held valid, kept, flatMap_records_ofSized, List.map_append]
    · rw [List.length_map]
      omega

/-- Two records with a line of blanks between them, and the same with a line that is no record behind
them. -/
def fewLines : String :=
  "\x7b\"_id\":\"1:/a\"\x7d\n \n\x7b\"_id\":\"1:/b\"\x7d\n"

theorem reports_malformed_somewhere :
    0 < (⟨1, 2, []⟩ : BatchRequest).maxDocuments ∧ AreValid (linesOf fewLines) ∧
    (∃ batches : List RecordBatch,
      (∀ n, (ofBytes "few.json" (Utf8.encode fewLines)).reply ⟨1, 2, []⟩ n = .ok batches[n]?) ∧
      ∀ n > batches.length, (batches.flatMap RecordBatch.records).length +
        ((ofBytes "few.json" (Utf8.encode fewLines)).after ⟨1, 2, []⟩ n).skipped = 2) ∧
    ∃ batches : List RecordBatch,
      (ofBytes "few.json" (Utf8.encode (fewLines ++ "\x7b"))).reply ⟨1, 2, []⟩ batches.length =
        .error (.source "few.json:4: invalid record") := by
  have positive : 0 < (⟨1, 2, []⟩ : BatchRequest).maxDocuments := by decide
  have lines : linesOf fewLines =
      ["\x7b\"_id\":\"1:/a\"\x7d", "", "\x7b\"_id\":\"1:/b\"\x7d", ""] := by decide +kernel
  have more : linesOf (fewLines ++ "\x7b") =
      ["\x7b\"_id\":\"1:/a\"\x7d", "", "\x7b\"_id\":\"1:/b\"\x7d"] ++ "\x7b" :: [] := by
    decide +kernel
  have validFront :
      AreValid ["\x7b\"_id\":\"1:/a\"\x7d", "", "\x7b\"_id\":\"1:/b\"\x7d"] := by
    unfold AreValid
    decide +kernel
  have valid : AreValid (linesOf fewLines) := by
    rw [lines]
    unfold AreValid
    decide +kernel
  rcases reports_malformed "few.json" fewLines ⟨1, 2, []⟩ positive with ⟨whole, -⟩
  rcases whole valid with ⟨batches, replies, -, count⟩
  rcases reports_malformed "few.json" (fewLines ++ "\x7b") ⟨1, 2, []⟩ positive with ⟨-, broken⟩
  rcases broken _ _ _ more validFront (by decide) rfl with ⟨handed, missing, -, failed, -⟩
  refine ⟨positive, valid, ⟨batches, replies, fun n above => ?_⟩, handed, failed⟩
  rw [count n above, lines]
  decide

end TreeExport.JsonLines
