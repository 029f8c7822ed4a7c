import RobotSketch.Xml.Doctype

/-!
# Document type declarations in stored texts

A text is stored as bytes, one to four for each character, and the cut that `stripDoctype` makes on
characters is made here on the bytes. The scan of a declaration looks at one byte after the other,
so the offset it keeps may lie inside a character. A text can be cut only between two characters:
`cut` refuses an offset that lies inside one or behind the end.
-/
namespace RobotSketch.Xml.Bytes

/-- An offset at which a text cannot be cut. -/
structure Misplaced where
  offset : Nat

/-- What stands in front of an offset and what follows it. -/
def cut (source : String) (offset : Nat) : Except Misplaced (String × String) :=
  if h : (String.Pos.Raw.mk offset).IsValid source then
    let place := source.pos ⟨offset⟩ h
    .ok ((source.sliceTo place).copy, (source.sliceFrom place).copy)
  else .error ⟨offset⟩

theorem cut_append (front rest : String) :
    cut (front ++ rest) front.utf8ByteSize = .ok (front, rest) := by
  have hvalid : (String.Pos.Raw.mk front.utf8ByteSize).IsValid (front ++ rest) :=
    String.Pos.Raw.isValid_iff_exists_append.2 ⟨front, rest, rfl, rfl⟩
  have hsplits : ((front ++ rest).pos _ hvalid).Splits front rest := ⟨rfl, rfl⟩
  rw [cut, dif_pos hvalid]
  dsimp only
  rw [hsplits.copy_sliceTo_eq, hsplits.copy_sliceFrom_eq]

/-- A text is cut exactly between two of its characters. -/
theorem cut_eq_ok_iff {source front rest : String} {offset : Nat} :
    cut source offset = .ok (front, rest) ↔
      source = front ++ rest ∧ offset = front.utf8ByteSize := by
  constructor
  · intro h
    unfold cut at h
    split at h
    · rename_i hvalid
      obtain ⟨first, second, rfl, hoffset⟩ := String.Pos.Raw.isValid_iff_exists_append.1 hvalid
      obtain rfl : offset = first.utf8ByteSize := congrArg String.Pos.Raw.byteIdx hoffset
      have hcut := cut_append first second
      rw [cut, dif_pos hvalid, h] at hcut
      obtain ⟨rfl, rfl⟩ := Prod.mk.inj (Except.ok.inj hcut)
      exact ⟨rfl, rfl⟩
    · cases h
  · rintro ⟨rfl, rfl⟩
    exact cut_append front rest

def octets (text : String) : List UInt8 := text.toByteArray.data.toList

theorem octets_ofList (cs : List Char) :
    octets (String.ofList cs) = cs.flatMap String.utf8EncodeChar := by
  rw [octets, String.toByteArray_ofList, List.utf8Encode, List.toList_data_toByteArray]

/-! ## Chunks -/

/-- The offset of the first occurrence of a word. -/
def find? (word : List UInt8) : List UInt8 → Option Nat
  | [] => if word.isEmpty then some 0 else none
  | b :: bs => if word.isPrefixOf (b :: bs) then some 0 else (find? word bs).map (· + 1)

/-- The chunk that a text starts with: none, one that does not end, or one of `size` bytes. -/
inductive Chunk where
  | absent
  | unended
  | ended (size : Nat)

/-- The chunk at the start of a text. -/
def chunkOf (text : String) : Chunk :=
  match chunkEnd? text.toList with
  | none => .absent
  | some terminator =>
    let word := octets (String.ofList terminator)
    match find? word (octets text) with
    | none => .unended
    | some offset => .ended (offset + word.length)

/-- A chunk has at least the bytes of its terminator. -/
theorem size_pos_of_chunkOf {text : String} {size : Nat} (h : chunkOf text = .ended size) :
    0 < size := by
  unfold chunkOf at h
  split at h
  · cases h
  · rename_i terminator hend
    have hword : 0 < (octets (String.ofList terminator)).length := by
      have hne := List.ne_nil_of_length_pos (chunkEnd?_ne_nil hend)
      rw [octets_ofList, List.length_pos_iff, Ne, List.flatMap_eq_nil_iff]
      obtain ⟨c, hc⟩ := List.exists_mem_of_ne_nil _ hne
      exact fun hall => String.utf8EncodeChar_ne_nil (hall c hc)
    dsimp only at h
    split at h
    · cases h
    · obtain rfl := Chunk.ended.inj h
      omega

/-! ## Searches -/

/-- What a search does next: it goes on at another place, it has found an offset, or there is
nothing to find. -/
inductive Move (α : Type) where
  | on (next : α)
  | found (offset : Nat)
  | missing

/-- A search in a text, step by step. Whenever it goes on, less of the text remains. -/
structure Search (α : Type) where
  step : α → Except Misplaced (Move α)
  remaining : α → Nat
  remaining_lt : ∀ {place next : α}, step place = .ok (.on next) → remaining next < remaining place

/-- The offset that a search finds from a place on. -/
def Search.run {α : Type} (search : Search α) (place : α) : Except Misplaced (Option Nat) :=
  match h : search.step place with
  | .error misplaced => .error misplaced
  | .ok .missing => .ok none
  | .ok (.found offset) => .ok (some offset)
  | .ok (.on next) =>
    have := search.remaining_lt h
    search.run next
termination_by search.remaining place

/-! ## In front of the declaration -/

def dropWhile (p : Char → Bool) (text : String) : String := String.ofList (text.toList.dropWhile p)

/-- The offset of a text at the end of another one. -/
def offsetOf (source rest : String) : Nat := source.utf8ByteSize - rest.utf8ByteSize

/-- What is done at an offset that has only blanks and chunks in front of it. -/
def seek (source : String) (offset : Nat) : Except Misplaced (Move Nat) :=
  match cut source offset with
  | .error misplaced => .error misplaced
  | .ok (_, rest) =>
    let text := dropWhile Text.isBlank rest
    if doctypeStart.isPrefixOf text.toList then .ok (.found (offsetOf source text))
    else
      match chunkOf text with
      | .ended size => .ok (.on (offsetOf source text + size))
      | .unended => .ok .missing
      | .absent => .ok .missing

theorem utf8ByteSize_dropWhile_le (p : Char → Bool) (text : String) :
    (dropWhile p text).utf8ByteSize ≤ text.utf8ByteSize := by
  have htext : text = String.ofList (text.toList.takeWhile p) ++ dropWhile p text := by
    rw [dropWhile, ← String.ofList_append, List.takeWhile_append_dropWhile, String.ofList_toList]
  have hsize := congrArg String.utf8ByteSize htext
  rw [String.utf8ByteSize_append] at hsize
  omega

/-- Behind a chunk less of the text remains. -/
theorem remaining_lt_of_seek {source : String} {offset next : Nat}
    (h : seek source offset = .ok (.on next)) :
    source.utf8ByteSize - next < source.utf8ByteSize - offset := by
  unfold seek at h
  split at h
  · cases h
  · rename_i front rest hcut
    obtain ⟨rfl, rfl⟩ := cut_eq_ok_iff.1 hcut
    have hle := utf8ByteSize_dropWhile_le Text.isBlank rest
    dsimp only at h
    generalize dropWhile Text.isBlank rest = text at h hle
    split at h
    · cases h
    · split at h
      · rename_i size hchunk
        have hsize := size_pos_of_chunkOf hchunk
        have htext : text.utf8ByteSize ≠ 0 := fun hzero => by
          rw [String.utf8ByteSize_eq_zero_iff.1 hzero] at hchunk
          cases hchunk
        obtain rfl := Move.on.inj (Except.ok.inj h)
        rw [offsetOf, String.utf8ByteSize_append]
        omega
      · cases h
      · cases h

def startSearch (source : String) : Search Nat where
  step := seek source
  remaining offset := source.utf8ByteSize - offset
  remaining_lt := remaining_lt_of_seek

/-! ## Inside the declaration -/

/-- Where a scan stands inside a declaration: the offset of the byte it looks at, the quote that is
open and the number of open brackets. -/
structure Place where
  offset : Nat
  quote : Option UInt8 := none
  depth : Nat := 0

namespace Place

/-- Moves past one byte that does not belong to a chunk. -/
def past (place : Place) (b : UInt8) : Place :=
  match place.quote with
  | some q => ⟨place.offset + 1, if b == q then none else some q, place.depth⟩
  | none =>
    let quote := if b == '"'.toUInt8 || b == '\''.toUInt8 then some b else none
    let depth :=
      if b == '['.toUInt8 then place.depth + 1
      else if b == ']'.toUInt8 then place.depth - 1
      else place.depth
    ⟨place.offset + 1, quote, depth⟩

theorem offset_past (place : Place) (b : UInt8) : (place.past b).offset = place.offset + 1 := by
  unfold past
  split <;> rfl

/-- The chunk at a place where a byte is read. Only a `<` opens one, and only there the text is
cut. -/
def chunk (place : Place) (source : String) (b : UInt8) : Except Misplaced Chunk :=
  if b == '<'.toUInt8 then
    match cut source place.offset with
    | .error misplaced => .error misplaced
    | .ok (_, rest) => .ok (chunkOf rest)
  else .ok .absent

theorem size_pos_of_chunk {place : Place} {source : String} {b : UInt8} {size : Nat}
    (h : place.chunk source b = .ok (.ended size)) : 0 < size := by
  unfold chunk at h
  split at h
  · split at h
    · cases h
    · exact size_pos_of_chunkOf (Except.ok.inj h)
  · cases h

/-- What is done at a place where a byte is read. -/
def read (place : Place) (source : String) (b : UInt8) : Except Misplaced (Move Place) :=
  if place.quote.isSome then .ok (.on (place.past b))
  else
    match place.chunk source b with
    | .error misplaced => .error misplaced
    | .ok (.ended size) => .ok (.on { place with offset := place.offset + size })
    | .ok .unended => .ok .missing
    | .ok .absent =>
      if b == '>'.toUInt8 && place.depth == 0 then .ok (.found (place.offset + 1))
      else .ok (.on (place.past b))

theorem offset_lt_of_read {place next : Place} {source : String} {b : UInt8}
    (h : place.read source b = .ok (.on next)) : place.offset < next.offset := by
  have hpast : place.offset < (place.past b).offset := by
    rw [offset_past]
    omega
  unfold read at h
  split at h
  · obtain rfl := Move.on.inj (Except.ok.inj h)
    exact hpast
  · split at h
    · cases h
    · rename_i size hchunk
      obtain rfl := Move.on.inj (Except.ok.inj h)
      exact Nat.lt_add_of_pos_right (size_pos_of_chunk hchunk)
    · cases h
    · split at h
      · cases h
      · obtain rfl := Move.on.inj (Except.ok.inj h)
        exact hpast

end Place

/-- What is done at a place inside a declaration. -/
def scan (source : String) (place : Place) : Except Misplaced (Move Place) :=
  if h : place.offset < source.toByteArray.size then
    place.read source source.toByteArray[place.offset]
  else .ok .missing

theorem remaining_lt_of_scan {source : String} {place next : Place}
    (h : scan source place = .ok (.on next)) :
    source.toByteArray.size - next.offset < source.toByteArray.size - place.offset := by
  unfold scan at h
  split at h
  · have := Place.offset_lt_of_read h
    omega
  · cases h

def endSearch (source : String) : Search Place where
  step := scan source
  remaining place := source.toByteArray.size - place.offset
  remaining_lt := remaining_lt_of_scan

/-! ## The text without its declaration -/

/-- A text without the declaration that starts at an offset. One that does not end stays. -/
def withoutDeclaration (source : String) (start : Nat) : Except Misplaced String := do
  let inside : Place := { offset := start + (String.ofList doctypeStart).utf8ByteSize }
  match ← (endSearch source).run inside with
  | none => return source
  | some stop => return (← cut source start).1 ++ (← cut source stop).2

/-- A text without its document type declaration. -/
def withoutDoctype (source : String) : Except Misplaced String := do
  let unmarked := dropWhile (fun c => c == Char.ofNat 0xFEFF) source
  match ← (startSearch source).run (offsetOf source unmarked) with
  | none => return source
  | some start => withoutDeclaration source start

end RobotSketch.Xml.Bytes
