import TreeExport.Error
import TreeExport.Proofs.Text.Utf8
import TreeExport.Store.Entry

/-!
# Reading what was written

`ofBytes_encodeAll`: the bytes of entries, one after the other, are read back as those entries and
end where the last of them does.  `short_ofFeed`: whatever bytes are read, the entries that come out
can be written.
-/

namespace TreeExport

namespace StoredEntry

/-- The lengths of an entry can be written. -/
def IsShort (entry : StoredEntry) : Prop :=
  Utf8.size entry.path < Length.limit ∧ entry.data.length < Length.limit

instance (entry : StoredEntry) : Decidable entry.IsShort :=
  inferInstanceAs (Decidable (_ ∧ _))

/-- The bytes of entries, one after the other. -/
def encodeAll (entries : List StoredEntry) : Bytes :=
  entries.flatMap bytes

@[simp] theorem encodeAll_nil : encodeAll [] = [] := rfl

@[simp] theorem encodeAll_cons (entry : StoredEntry) (rest : List StoredEntry) :
    encodeAll (entry :: rest) = entry.bytes ++ encodeAll rest :=
  List.flatMap_cons

@[simp] theorem encodeAll_append (front back : List StoredEntry) :
    encodeAll (front ++ back) = encodeAll front ++ encodeAll back :=
  List.flatMap_append

theorem encode_of_isShort {entry : StoredEntry} (short : entry.IsShort) :
    entry.encode = .ok entry.bytes := by
  rw [encode, if_neg (Nat.not_le.mpr short.1), if_neg (Nat.not_le.mpr short.2)]

theorem isShort_of_encode {entry : StoredEntry} {bytes : Bytes} (encoded : entry.encode = .ok bytes) :
    entry.IsShort := by
  unfold encode at encoded
  split at encoded
  · cases encoded
  · next pathShort =>
    split at encoded
    · cases encoded
    · next dataShort => exact ⟨Nat.not_le.mp pathShort, Nat.not_le.mp dataShort⟩

/-! ## One entry -/

theorem takeExactly_append {feed : Feed} {front rest : Bytes} {n : Nat}
    (bytes : feed.bytes = front ++ rest) (length : front.length = n) :
    ∃ left, takeExactly n feed = .ok (front, left) ∧ left.bytes = rest := by
  have first := Feed.take_fst n feed
  have second := Feed.take_snd n feed
  rw [bytes, ← length, List.take_left] at first
  rw [bytes, ← length, List.drop_left] at second
  refine ⟨(Feed.take n feed).2, ?_, by rw [← length]; exact second⟩
  rw [← length] at *
  simp only [takeExactly, first, if_true]

theorem takeExactlyOrEnd_append {feed : Feed} {front rest : Bytes} {n : Nat}
    (bytes : feed.bytes = front ++ rest) (length : front.length = n) :
    ∃ left, takeExactlyOrEnd n feed = .ok (some (front, left)) ∧ left.bytes = rest := by
  have first := Feed.take_fst n feed
  have second := Feed.take_snd n feed
  rw [bytes, ← length, List.take_left] at first
  rw [bytes, ← length, List.drop_left] at second
  refine ⟨(Feed.take n feed).2, ?_, by rw [← length]; exact second⟩
  rw [← length] at *
  simp only [takeExactlyOrEnd, first, if_true]

/-- An entry in front of a stream is read. -/
theorem read_bytes {feed : Feed} {entry : StoredEntry} {rest : Bytes} (short : entry.IsShort)
    (bytes : feed.bytes = entry.bytes ++ rest) :
    ∃ left, read feed = .ok (some (entry, left)) ∧ left.bytes = rest := by
  obtain ⟨path, data⟩ := entry
  simp only [StoredEntry.bytes, List.append_assoc] at bytes
  obtain ⟨afterLength, first, bytes⟩ := takeExactlyOrEnd_append bytes (Length.length_encode _)
  obtain ⟨afterPath, second, bytes⟩ := takeExactly_append bytes (Utf8.length_encode _)
  obtain ⟨afterSecond, third, bytes⟩ := takeExactly_append bytes (Length.length_encode _)
  obtain ⟨left, fourth, bytes⟩ := takeExactly_append bytes rfl
  refine ⟨left, ?_, bytes⟩
  simp only [read, first, bind, Except.bind, Length.decode_encode short.1, second,
    Utf8.decode_encode, mapError_ok, third, Length.decode_encode short.2, fourth, pure,
    Except.pure]

theorem read_end {feed : Feed} (bytes : feed.bytes = []) : read feed = .ok none := by
  have first := Feed.take_fst Length.width feed
  rw [bytes] at first
  have taken : (Feed.take Length.width feed).1 = [] := by rw [first]; rfl
  have short : ¬ ([] : Bytes).length = Length.width := by decide
  simp only [read, takeExactlyOrEnd, taken, short, if_false, List.isEmpty_nil, if_true, bind,
    Except.bind, pure, Except.pure]

end StoredEntry

/-! ## All entries -/

namespace Reading

theorem ofFeed_none {feed : Feed} (done : StoredEntry.read feed = .ok none) :
    ofFeed feed = ⟨[], none⟩ := by
  rw [ofFeed]
  split
  · rfl
  · next fault failed => rw [done] at failed; cases failed
  · next entry rest more => rw [done] at more; cases more

theorem ofFeed_error {feed : Feed} {fault : StoredEntry.ReadFault}
    (failed : StoredEntry.read feed = .error fault) : ofFeed feed = ⟨[], some fault⟩ := by
  rw [ofFeed]
  split
  · next done => rw [failed] at done; cases done
  · next fault' failed' =>
    rw [failed] at failed'
    cases failed'
    rfl
  · next entry rest more => rw [failed] at more; cases more

theorem ofFeed_some {feed rest : Feed} {entry : StoredEntry}
    (more : StoredEntry.read feed = .ok (some (entry, rest))) :
    ofFeed feed = ⟨entry :: (ofFeed rest).entries, (ofFeed rest).fault⟩ := by
  rw [ofFeed]
  split
  · next done => rw [more] at done; cases done
  · next fault failed => rw [more] at failed; cases failed
  · next entry' rest' more' =>
    rw [more] at more'
    cases more'
    rfl

theorem ofFeed_encodeAll {feed : Feed} {entries : List StoredEntry}
    (short : ∀ entry ∈ entries, entry.IsShort)
    (bytes : feed.bytes = StoredEntry.encodeAll entries) : ofFeed feed = ⟨entries, none⟩ := by
  induction entries generalizing feed with
  | nil => exact ofFeed_none (StoredEntry.read_end bytes)
  | cons entry rest ih =>
    rw [StoredEntry.encodeAll_cons] at bytes
    obtain ⟨left, read, bytes⟩ :=
      StoredEntry.read_bytes (short entry List.mem_cons_self) bytes
    rw [ofFeed_some read, ih (fun later member => short later (List.mem_cons_of_mem _ member)) bytes]

/-- The bytes of entries are read back as those entries. -/
theorem ofBytes_encodeAll {entries : List StoredEntry}
    (short : ∀ entry ∈ entries, entry.IsShort) :
    ofBytes (StoredEntry.encodeAll entries) = ⟨entries, none⟩ :=
  ofFeed_encodeAll short (Feed.bytes_whole _)

end Reading

/-! ## What is read can be written -/

theorem Length.decode_lt {bytes : Bytes} (width : bytes.length = Length.width) :
    Length.decode bytes < Length.limit := by
  match bytes, width with
  | [a, b, c, d], _ =>
    have := a.toNat_lt
    have := b.toNat_lt
    have := c.toNat_lt
    have := d.toNat_lt
    simp only [Length.decode, Length.limit, List.foldl_cons, List.foldl_nil]
    omega

/-- An entry that was read has lengths that can be written. -/
theorem StoredEntry.isShort_of_read {feed rest : Feed} {entry : StoredEntry}
    (done : read feed = .ok (some (entry, rest))) : entry.IsShort := by
  unfold read at done
  obtain ⟨_ | ⟨pathLength, _⟩, first, done⟩ := exists_of_bind done
  · cases done
  · obtain ⟨⟨pathBytes, _⟩, second, done⟩ := exists_of_bind done
    obtain ⟨path, decoded, done⟩ := exists_of_bind done
    obtain ⟨⟨dataLength, _⟩, third, done⟩ := exists_of_bind done
    obtain ⟨⟨data, _⟩, fourth, done⟩ := exists_of_bind done
    cases done
    have text : Utf8.decode pathBytes = .ok path := by
      cases read : Utf8.decode pathBytes with
      | error fault =>
        rw [read] at decoded
        cases decoded
      | ok text =>
        rw [read] at decoded
        cases decoded
        rfl
    have pathShort := Length.decode_lt (takeExactlyOrEnd_bytes first).1
    have dataShort := Length.decode_lt (takeExactly_bytes third).1
    rw [← (takeExactly_bytes second).1] at pathShort
    rw [← (takeExactly_bytes fourth).1] at dataShort
    rw [← Utf8.encode_of_decode text, Utf8.length_encode] at pathShort
    exact ⟨pathShort, dataShort⟩

namespace Reading

theorem short_ofFeed {feed : Feed} : ∀ entry ∈ (ofFeed feed).entries, entry.IsShort := by
  fun_induction ofFeed feed with
  | case1 => exact fun _ none => absurd none List.not_mem_nil
  | case2 => exact fun _ none => absurd none List.not_mem_nil
  | case3 feed entry rest read later ih =>
    intro other member
    rcases List.mem_cons.mp member with rfl | deeper
    · exact StoredEntry.isShort_of_read read
    · exact ih other deeper

end Reading

end TreeExport
