import TreeExport.Proofs.Store.Reading

/-!
# What bytes can be read as

Reading goes both ways.  Bytes that are read to their end are those that the entries are written as
(`Reading.encodeAll_ofFeed`), and a file that has been cut off gives the entries before the cut, and
says so unless it was cut between two entries (`Reading.ofFeed_cut`).
-/

namespace TreeExport

open StoredEntry

/-! ## Lengths -/

theorem Length.encode_decode {bytes : Bytes} (width : bytes.length = Length.width) :
    Length.encode (Length.decode bytes) = bytes := by
  match bytes, width with
  | [a, b, c, d], _ =>
    have := a.toNat_lt
    have := b.toNat_lt
    have := c.toNat_lt
    have := d.toNat_lt
    simp only [Length.decode, Length.encode, List.foldl_cons, List.foldl_nil, List.cons.injEq,
      ← UInt8.toNat_inj, UInt8.toNat_ofNat', and_true]
    omega

namespace StoredEntry

variable {feed rest : Feed} {entry : StoredEntry} {entries : List StoredEntry}

theorem length_bytes (entry : StoredEntry) :
    entry.bytes.length = 8 + Utf8.size entry.path + entry.data.length := by
  simp only [bytes, List.length_append, Length.length_encode, Utf8.length_encode, Length.width]
  omega

/-! ## What has been read -/

/-- What is read as an entry are the bytes of that entry. -/
theorem bytes_of_read (done : read feed = .ok (some (entry, rest))) :
    feed.bytes = entry.bytes ++ rest.bytes := by
  unfold read at done
  obtain ⟨_ | ⟨pathLength, _⟩, first, done⟩ := exists_of_bind done
  · cases done
  · obtain ⟨⟨pathBytes, _⟩, second, done⟩ := exists_of_bind done
    obtain ⟨path, decoded, done⟩ := exists_of_bind done
    obtain ⟨⟨dataLength, _⟩, third, done⟩ := exists_of_bind done
    obtain ⟨⟨data, _⟩, fourth, done⟩ := exists_of_bind done
    cases done
    have text : Utf8.encode path = pathBytes := by
      cases read : Utf8.decode pathBytes with
      | error fault =>
        rw [read] at decoded
        cases decoded
      | ok text =>
        rw [read] at decoded
        cases decoded
        exact Utf8.encode_of_decode read
    obtain ⟨firstWidth, first⟩ := takeExactlyOrEnd_bytes first
    obtain ⟨pathWidth, second⟩ := takeExactly_bytes second
    obtain ⟨thirdWidth, third⟩ := takeExactly_bytes third
    obtain ⟨dataWidth, fourth⟩ := takeExactly_bytes fourth
    rw [first, second, third, fourth, bytes, ← Utf8.length_encode, text, pathWidth,
      Length.encode_decode firstWidth, dataWidth, Length.encode_decode thirdWidth]
    simp only [List.append_assoc]

/-! ## Streams that are too short -/

theorem takeExactly_of_lt {n : Nat} (short : feed.bytes.length < n) :
    takeExactly n feed = .error .endInside := by
  have taken := congrArg List.length (Feed.take_fst n feed)
  rw [List.length_take] at taken
  have differs : (Feed.take n feed).1.length ≠ n := by omega
  simp only [takeExactly, differs, if_false]

theorem takeExactlyOrEnd_of_lt {n : Nat} (short : feed.bytes.length < n) :
    takeExactlyOrEnd n feed = if feed.bytes = [] then .ok none else .error .endInLength := by
  have taken := Feed.take_fst n feed
  rw [List.take_of_length_le (Nat.le_of_lt short)] at taken
  simp only [takeExactlyOrEnd, taken, List.isEmpty_iff, Nat.ne_of_lt short, if_false]

/-- What is taken of a stream that has been cut off. -/
theorem takeExactly_cut {front back : Bytes} {n : Nat} (bytes : feed.bytes = (front ++ back).take n) :
    n < front.length ∧ takeExactly front.length feed = .error .endInside ∨
      front.length ≤ n ∧ ∃ left, takeExactly front.length feed = .ok (front, left) ∧
        left.bytes = back.take (n - front.length) := by
  rcases Nat.lt_or_ge n front.length with less | enough
  · refine .inl ⟨less, takeExactly_of_lt ?_⟩
    rw [bytes, List.length_take]
    omega
  · rw [List.take_append, List.take_of_length_le enough] at bytes
    exact .inr ⟨enough, takeExactly_append bytes rfl⟩

/-- Nothing is read only at the end. -/
theorem bytes_of_read_none (done : read feed = .ok none) : feed.bytes = [] := by
  unfold read at done
  obtain ⟨_ | ⟨pathLength, _⟩, first, done⟩ := exists_of_bind done
  · rcases Nat.lt_or_ge feed.bytes.length Length.width with less | enough
    · rw [takeExactlyOrEnd_of_lt less] at first
      split at first
      · assumption
      · cases first
    · obtain ⟨_, taken, -⟩ := takeExactlyOrEnd_append
        (List.take_append_drop Length.width feed.bytes).symm (List.length_take_of_le enough)
      rw [taken] at first
      cases first
  · obtain ⟨⟨pathBytes, _⟩, _, done⟩ := exists_of_bind done
    obtain ⟨path, _, done⟩ := exists_of_bind done
    obtain ⟨⟨dataLength, _⟩, _, done⟩ := exists_of_bind done
    obtain ⟨⟨data, _⟩, _, done⟩ := exists_of_bind done
    cases done

/-- Why reading stops where so many bytes are left of an entry. -/
def cutFault (left : Nat) : Option ReadFault :=
  if left = 0 then none else if left < Length.width then some .endInLength else some .endInside

/-- An entry that has been cut off is not read. -/
theorem read_cut {n : Nat} (short : entry.IsShort) (less : n < entry.bytes.length)
    (cut : feed.bytes = entry.bytes.take n) :
    read feed = match cutFault n with
      | none => .ok none
      | some fault => .error fault := by
  have length : feed.bytes.length = n := by
    rw [cut, List.length_take]
    omega
  unfold cutFault
  by_cases nothing : n = 0
  · rw [if_pos nothing]
    exact read_end (List.length_eq_zero_iff.mp (length.trans nothing))
  rw [if_neg nothing]
  by_cases early : n < Length.width
  · have first := takeExactlyOrEnd_of_lt (length ▸ early)
    rw [if_neg fun none => nothing (by rw [← length, none]; rfl)] at first
    simp only [if_pos early, read, first, bind, Except.bind]
  rw [if_neg early]
  obtain ⟨path, data⟩ := entry
  rw [length_bytes] at less
  simp only [bytes] at cut
  rw [List.take_append, List.take_of_length_le (Nat.not_lt.mp early)] at cut
  obtain ⟨afterLength, first, cut⟩ := takeExactlyOrEnd_append cut (Length.length_encode _)
  -- the cut is in one of the three parts that are left
  rcases takeExactly_cut cut with ⟨-, second⟩ | ⟨pathThere, afterPath, second, cut⟩
  · rw [Utf8.length_encode] at second
    simp only [read, first, bind, Except.bind, Length.decode_encode short.1, second]
  rw [Utf8.length_encode] at second
  rcases takeExactly_cut cut with ⟨-, third⟩ | ⟨lengthThere, afterSecond, third, cut⟩
  · rw [Length.length_encode] at third
    simp only [read, first, bind, Except.bind, Length.decode_encode short.1, second,
      Utf8.decode_encode, mapError_ok, third]
  rw [Length.length_encode] at third lengthThere cut
  have fourth : takeExactly data.length afterSecond = .error .endInside := by
    refine takeExactly_of_lt ?_
    rw [cut, List.length_take]
    simp only [Length.length_encode, Utf8.length_encode, Length.width] at *
    omega
  simp only [read, first, bind, Except.bind, Length.decode_encode short.1, second,
    Utf8.decode_encode, mapError_ok, third, Length.decode_encode short.2, fourth]

end StoredEntry

namespace Reading

variable {feed : Feed} {entries : List StoredEntry}

/-- The entries that are read are written as the bytes in front of where reading stopped. -/
theorem encodeAll_ofFeed (feed : Feed) : ∃ rest, feed.bytes = encodeAll (ofFeed feed).entries ++ rest ∧
    ((ofFeed feed).fault = none → rest = []) := by
  fun_induction ofFeed feed with
  | case1 feed done => exact ⟨[], bytes_of_read_none done, fun _ => rfl⟩
  | case2 feed fault failed => exact ⟨feed.bytes, rfl, fun none => by cases none⟩
  | case3 feed entry left done later ih =>
    obtain ⟨rest, bytes, whole⟩ := ih
    refine ⟨rest, ?_, whole⟩
    rw [bytes_of_read done, bytes, encodeAll_cons, List.append_assoc]

/-- What has been cut off is read up to the last entry that is whole. -/
theorem ofFeed_cut (short : ∀ entry ∈ entries, entry.IsShort) {n : Nat}
    (within : n ≤ (encodeAll entries).length) (cut : feed.bytes = (encodeAll entries).take n) :
    ∃ front back, entries = front ++ back ∧ (encodeAll front).length ≤ n ∧
      (∀ next ∈ back.head?, n < (encodeAll (front ++ [next])).length) ∧
      ofFeed feed = ⟨front, cutFault (n - (encodeAll front).length)⟩ := by
  induction entries generalizing feed n with
  | nil =>
    obtain rfl : n = 0 := Nat.le_zero.mp within
    exact ⟨[], [], rfl, Nat.le_refl 0, fun _ same => (by cases same), ofFeed_none (read_end cut)⟩
  | cons entry rest ih =>
    have first := short entry List.mem_cons_self
    rw [encodeAll_cons] at cut within
    rcases Nat.lt_or_ge n entry.bytes.length with less | enough
    · refine ⟨[], entry :: rest, rfl, Nat.zero_le n, fun next same => ?_, ?_⟩
      · obtain rfl : entry = next := Option.some.inj same
        simpa using less
      · rw [List.take_append_of_le_length (Nat.le_of_lt less)] at cut
        have done := read_cut first less cut
        rw [encodeAll_nil, List.length_nil, Nat.sub_zero]
        cases fault : cutFault n with
        | none =>
          rw [fault] at done
          exact ofFeed_none done
        | some fault' =>
          rw [fault] at done
          exact ofFeed_error done
    · rw [List.take_append, List.take_of_length_le enough] at cut
      obtain ⟨left, done, cut⟩ := read_bytes first cut
      obtain ⟨front, back, rfl, before, after, later⟩ :=
        ih (fun other member => short other (List.mem_cons_of_mem _ member))
          (by rw [List.length_append] at within; omega) cut
      refine ⟨entry :: front, back, rfl, ?_, fun next same => ?_, ?_⟩
      · rw [encodeAll_cons, List.length_append]
        omega
      · have bound := after next same
        rw [List.cons_append, encodeAll_cons, List.length_append]
        omega
      · rw [ofFeed_some done, later, encodeAll_cons, List.length_append, Nat.sub_add_eq]

/-- Entries whose lengths can be written are written with as many bytes as is said, and read back from
a stream of these bytes in any pieces.  A stream that ends at any byte before gives the entries in front
of it that are whole, and the end is no fault just where it is between two entries.  And what a stream
gives that is read without a fault is written as the bytes of that stream. -/
theorem faithful_records :
    (∀ entries : List StoredEntry, (∀ entry ∈ entries, entry.IsShort) →
      (∀ entry ∈ entries, entry.encode = .ok entry.bytes ∧
        entry.bytes.length = 8 + Utf8.size entry.path + entry.data.length) ∧
      (∀ feed : Feed, feed.bytes = encodeAll entries → ofFeed feed = ⟨entries, none⟩) ∧
      ∀ n ≤ (encodeAll entries).length, ∀ feed : Feed,
        feed.bytes = (encodeAll entries).take n →
        ∃ front back, entries = front ++ back ∧ (encodeAll front).length ≤ n ∧
          (∀ next ∈ back.head?, n < (encodeAll (front ++ [next])).length) ∧
          ofFeed feed = ⟨front, cutFault (n - (encodeAll front).length)⟩) ∧
    ∀ feed : Feed, (ofFeed feed).fault = none →
      (∀ entry ∈ (ofFeed feed).entries, entry.encode = .ok entry.bytes) ∧
        encodeAll (ofFeed feed).entries = feed.bytes := by
  refine ⟨fun entries short => ⟨fun entry member => ?_, fun feed bytes => ?_, ?_⟩,
    fun feed whole => ⟨fun entry member => ?_, ?_⟩⟩
  · exact ⟨encode_of_isShort (short entry member), length_bytes entry⟩
  · exact ofFeed_encodeAll short bytes
  · exact fun n within feed cut => ofFeed_cut short within cut
  · exact encode_of_isShort (short_ofFeed entry member)
  · obtain ⟨rest, bytes, nothing⟩ := encodeAll_ofFeed feed
    rw [bytes, nothing whole, List.append_nil]

/-- Two entries, one of them with nothing in it, cut off in the second length of the other. -/
theorem faithful_two_entries :
    let entries : List StoredEntry := [⟨"", []⟩, ⟨"/a", [0x31]⟩]
    (∀ entry ∈ entries, entry.IsShort) ∧ 16 ≤ (encodeAll entries).length ∧
      ofBytes ((encodeAll entries).take 16) = ⟨[⟨"", []⟩], some .endInside⟩ ∧
      (ofBytes (encodeAll entries)).fault = none ∧
      encodeAll (ofBytes (encodeAll entries)).entries = encodeAll entries := by
  have short : ∀ entry ∈ [⟨"", []⟩, ⟨"/a", [0x31]⟩], IsShort entry := by decide
  have within : 16 ≤ (encodeAll [⟨"", []⟩, ⟨"/a", [0x31]⟩]).length := by decide
  obtain ⟨-, whole, cut⟩ := faithful_records.1 _ short
  have none := congrArg Reading.fault (whole _ (Feed.bytes_whole _))
  have same := (faithful_records.2 _ none).2
  rw [Feed.bytes_whole] at same
  refine ⟨short, within, ?_, none, same⟩
  obtain ⟨front, back, same, before, after, reads⟩ := cut 16 within _ (Feed.bytes_whole _)
  rcases front with _ | ⟨first, front⟩
  · cases same
    exact absurd (after _ rfl) (by decide)
  obtain ⟨rfl, later⟩ := List.cons.inj same
  rcases front with _ | ⟨second, front⟩
  · exact reads
  obtain ⟨rfl, last⟩ := List.cons.inj later
  obtain ⟨rfl, rfl⟩ := List.append_eq_nil_iff.mp last.symm
  exact absurd before (by decide)

end Reading

end TreeExport
