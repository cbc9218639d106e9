import TreeExport.Record.Reader
import TreeExport.Source.Request
import TreeExport.Text.Blank

/-!
# Records from a file of lines

Every line of an export holds one record; blank lines hold none but are counted.  A record that
does not fit in a batch any more is kept for the next one.  A line that is no record ends the call
with a failure that names it, the records gathered in that call are given up, and the next call
goes on after it.
-/

namespace TreeExport

/-- A position in an export. -/
structure JsonLines where
  /-- The path of the export, for messages. -/
  path : String
  /-- The lines to come, or why none can be read. -/
  lines : Except String (List Bytes)
  /-- The number of lines that have been read as text. -/
  line : Nat := 0
  /-- The record that did not fit in the last batch, and its size. -/
  pending : Option (Record × Nat) := none
  /-- The number of records that a request did not want. -/
  skipped : Nat := 0

namespace JsonLines

/-- The byte that ends a line. -/
def newLine : UInt8 := 10

/-- The lines of a file, each without the byte that ends it; `current` holds the bytes of the
line that is being read, the last one first. -/
def splitLines (current : Bytes) : Bytes → List Bytes
  | [] => if current.isEmpty then [] else [current.reverse]
  | b :: rest =>
    if b = newLine then current.reverse :: splitLines [] rest else splitLines (b :: current) rest

/-- An export that holds these bytes. -/
def ofBytes (path : String) (content : Bytes) : JsonLines where
  path := path
  lines := .ok (splitLines [] content)

/-- An export that can be opened but not read. -/
def unreadable (path reason : String) : JsonLines where
  path := path
  lines := .error reason

/-- What a line holds. -/
inductive Line
  | notText
  | blank
  | notRecord
  | holding (record : Record) (size : Nat)

/-- Reads a line.  The size of a record is that of its line without the blanks around it. -/
def Line.ofBytes (bytes : Bytes) : Line :=
  match Utf8.decode bytes with
  | .error _ => .notText
  | .ok text =>
    let trimmed := Text.trim text
    if trimmed.isEmpty then .blank
    else
      match Record.read? trimmed with
      | none => .notRecord
      | some record => .holding record (Utf8.size trimmed)

/-- The reason that a line which is no text gives. -/
def notTextReason : String := "stream did not contain valid UTF-8"

/-- The batch that is being filled, its records the last one first. -/
structure Filling where
  records : List Record := []
  count : Nat := 0
  size : Nat := 0

/-- The batch, if it holds anything. -/
def Filling.finish? (filling : Filling) : Option RecordBatch :=
  if filling.count = 0 then none else some ⟨filling.records.reverse, filling.size⟩

/-- Puts a record into the batch. -/
def Filling.push (filling : Filling) (record : Record) (size : Nat) : Filling :=
  ⟨record :: filling.records, filling.count + 1, filling.size + size⟩

/-- The record would take the batch, which is not empty, over the bound on its size. -/
def Filling.isOver (filling : Filling) (request : BatchRequest) (size : Nat) : Bool :=
  filling.count != 0 && request.maxBytes < filling.size + size

/-- The answer of a source to a request, and the source after it. -/
abbrev Answer (σ : Type) := Except Error (Option RecordBatch) × σ

/-- Fills a batch from lines. -/
def fill (request : BatchRequest) (source : JsonLines) (filling : Filling) :
    List Bytes → Answer JsonLines
  | [] => (.ok filling.finish?, { source with lines := .ok [] })
  | bytes :: rest =>
    if request.maxDocuments ≤ filling.count then
      (.ok filling.finish?, { source with lines := .ok (bytes :: rest) })
    else
      match Line.ofBytes bytes with
      | .notText =>
        (.error (.source s!"{source.path}: {notTextReason}"), { source with lines := .ok rest })
      | .blank => fill request { source with line := source.line + 1 } filling rest
      | .notRecord =>
        (.error (.source s!"{source.path}:{source.line + 1}: invalid record"),
          { source with lines := .ok rest, line := source.line + 1 })
      | .holding record size =>
        let source := { source with line := source.line + 1 }
        if !request.acceptsRecord record then
          fill request { source with skipped := source.skipped + 1 } filling rest
        else if filling.isOver request size then
          (.ok filling.finish?,
            { source with lines := .ok rest, pending := some (record, size) })
        else fill request source (filling.push record size) rest

/-- Goes on with the lines, if they can be read. -/
def fillFromLines (request : BatchRequest) (source : JsonLines) (filling : Filling) :
    Answer JsonLines :=
  match source.lines with
  | .ok lines => fill request source filling lines
  | .error reason =>
    if request.maxDocuments ≤ filling.count then (.ok filling.finish?, source)
    else (.error (.source s!"{source.path}: {reason}"), source)

/-- The next batch, or none at the end of the export.  The pending record comes first; it is
asked again whether the request wants it. -/
def next (request : BatchRequest) (source : JsonLines) : Answer JsonLines :=
  match source.pending with
  | none => fillFromLines request source {}
  | some (record, size) =>
    if request.maxDocuments = 0 then (.ok none, source)
    else
      let source := { source with pending := none }
      if request.acceptsRecord record then
        fillFromLines request source (Filling.push {} record size)
      else fillFromLines request { source with skipped := source.skipped + 1 } {}

/-- A name for messages. -/
def describe (source : JsonLines) : String :=
  s!"jsonl:{source.path}"

end JsonLines

end TreeExport
