import RobotSketch.Proofs.Prolog.Division
import RobotSketch.Xml.Bytes

/-!
# Cutting declarations out of stored texts

The scan along the bytes of a text stops where the scan along its characters does. All characters
that the scan looks for are stored as one byte, and no byte of any other character is one of
them. So the offset that is kept may lie inside a character of several bytes, but nothing happens
there: chunks, quotes and brackets begin and end between two characters, and this is where the text
is cut.
-/
namespace RobotSketch.Xml.Bytes

/-! ## Characters as bytes -/

/-- The bytes of characters. -/
def utf8 (cs : List Char) : List UInt8 := cs.flatMap String.utf8EncodeChar

/-- The number of bytes of characters. -/
def size (cs : List Char) : Nat := (String.ofList cs).utf8ByteSize

/-- Whether a character is stored as one byte. -/
def Single (c : Char) : Prop := c.utf8Size = 1

instance (c : Char) : Decidable (Single c) := inferInstanceAs (Decidable (c.utf8Size = 1))

theorem utf8_cons (c : Char) (cs : List Char) :
    utf8 (c :: cs) = String.utf8EncodeChar c ++ utf8 cs := rfl

theorem utf8_append (first second : List Char) :
    utf8 (first ++ second) = utf8 first ++ utf8 second := List.flatMap_append

theorem size_append (first second : List Char) :
    size (first ++ second) = size first + size second := by
  rw [size, String.ofList_append, String.utf8ByteSize_append]
  rfl

theorem length_utf8 (cs : List Char) : (utf8 cs).length = size cs := by
  rw [utf8, ← octets_ofList, octets, Array.length_toList]
  rfl

theorem Single.encode {c : Char} (h : Single c) : String.utf8EncodeChar c = [c.toUInt8] :=
  String.utf8EncodeChar_eq_singleton h

theorem Single.size {c : Char} (h : Single c) : size [c] = 1 := by
  rw [← length_utf8, utf8_cons, h.encode]
  rfl

theorem single_iff {c : Char} : Single c ↔ c.val.toNat < 128 := by
  rw [Single, Char.utf8Size_eq_one_iff, UInt32.le_iff_toNat_le]
  exact Nat.lt_succ_iff.symm

theorem single_of_all {cs : List Char} (h : cs.all (fun c => decide (Single c)) = true) {c : Char}
    (hc : c ∈ cs) : Single c := of_decide_eq_true (List.all_eq_true.1 h c hc)

theorem Single.toNat_toUInt8 {c : Char} (h : Single c) : c.toUInt8.toNat = c.val.toNat := by
  have hval : c.toUInt8.toNat = c.val.toNat % 256 := UInt32.toNat_toUInt8 c.val
  have := single_iff.1 h
  omega

/-- A character of one byte is known by it. -/
theorem Single.beq_toUInt8 {c d : Char} (hc : Single c) (hd : Single d) :
    (c.toUInt8 == d.toUInt8) = (c == d) := by
  rw [Bool.eq_iff_iff, beq_iff_eq, beq_iff_eq]
  refine ⟨fun h => Char.ext (UInt32.toNat_inj.1 ?_), congrArg _⟩
  rw [← hc.toNat_toUInt8, ← hd.toNat_toUInt8, h]

/-- The bytes of a character of several bytes are no characters of their own. -/
theorem le_of_mem_encode {c : Char} (h : ¬ Single c) {b : UInt8}
    (hb : b ∈ String.utf8EncodeChar c) : 128 ≤ b.toNat := by
  rw [single_iff] at h
  have hbyte : ∀ {n : Nat}, b = UInt8.ofNat n → 128 ≤ n → n < 256 → 128 ≤ b.toNat := by
    rintro n rfl hlow hhigh
    rwa [UInt8.toNat_ofNat_of_lt' hhigh]
  unfold String.utf8EncodeChar at hb
  dsimp only at hb
  split at hb
  · omega
  · split at hb
    · simp only [List.mem_cons, List.not_mem_nil, or_false] at hb
      rcases hb with hb | hb <;> exact hbyte hb (by omega) (by omega)
    · split at hb
      · simp only [List.mem_cons, List.not_mem_nil, or_false] at hb
        rcases hb with hb | hb | hb <;> exact hbyte hb (by omega) (by omega)
      · simp only [List.mem_cons, List.not_mem_nil, or_false] at hb
        rcases hb with hb | hb | hb | hb <;> exact hbyte hb (by omega) (by omega)

theorem ne_of_mem_encode {c d : Char} (hc : ¬ Single c) (hd : Single d) {b : UInt8}
    (hb : b ∈ String.utf8EncodeChar c) : b ≠ d.toUInt8 := by
  rintro rfl
  have := le_of_mem_encode hc hb
  have := hd.toNat_toUInt8
  have := single_iff.1 hd
  omega

/-! ## Chunks -/

/-- A text of characters of one byte starts alike in characters and in bytes. -/
theorem isPrefixOf_utf8 {word : List Char} (hword : ∀ c ∈ word, Single c) (cs : List Char) :
    (utf8 word).isPrefixOf (utf8 cs) = word.isPrefixOf cs := by
  induction word generalizing cs with
  | nil => simp [utf8]
  | cons w word ih =>
    have hw : Single w := hword w List.mem_cons_self
    rw [utf8_cons, hw.encode]
    cases cs with
    | nil => rfl
    | cons c cs =>
      by_cases hc : Single c
      · rw [utf8_cons, hc.encode, List.singleton_append, List.singleton_append, List.isPrefixOf,
          List.isPrefixOf, ih fun d hd => hword d (List.mem_cons_of_mem w hd), hw.beq_toUInt8 hc]
      · have hne : w ≠ c := by
          rintro rfl
          exact hc hw
        obtain ⟨b, bs, hbytes⟩ := List.exists_cons_of_ne_nil (@String.utf8EncodeChar_ne_nil c)
        have hb : w.toUInt8 ≠ b := (ne_of_mem_encode hc hw (hbytes ▸ List.mem_cons_self)).symm
        rw [utf8_cons, hbytes, List.singleton_append, List.cons_append, List.isPrefixOf,
          List.isPrefixOf, beq_eq_false_iff_ne.2 hb, beq_eq_false_iff_ne.2 hne]
        rfl

/-- Bytes that are no characters of their own are passed over by the search for a word. -/
theorem find?_append {w : UInt8} {word first : List UInt8} (h : w ∉ first) (second : List UInt8) :
    find? (w :: word) (first ++ second) = (find? (w :: word) second).map (first.length + ·) := by
  induction first with
  | nil => simp
  | cons b first ih =>
    have hb : (w == b) = false := by
      rw [beq_eq_false_iff_ne]
      rintro rfl
      exact h List.mem_cons_self
    have hnot : ¬ (w :: word).isPrefixOf (b :: (first ++ second)) = true := by
      simp [List.isPrefixOf, hb]
    rw [List.cons_append, find?, if_neg hnot, ih fun hmem => h (List.mem_cons_of_mem b hmem),
      Option.map_map]
    congr 1
    funext n
    simp only [Function.comp, List.length_cons]
    omega

theorem find?_of_isPrefixOf {word bytes : List UInt8} (h : word.isPrefixOf bytes = true) :
    find? word bytes = some 0 := by
  cases bytes with
  | nil =>
    obtain rfl := List.prefix_nil.1 (List.isPrefixOf_iff_prefix.1 h)
    rfl
  | cons b bytes => rw [find?, if_pos h]

section

variable {w : Char} {word : List Char} (hword : ∀ c ∈ w :: word, Single c)
include hword

/-- A character at which a word does not start is passed over with all its bytes. -/
theorem find?_utf8_cons {c : Char} {cs : List Char}
    (hnot : (w :: word).isPrefixOf (c :: cs) = false) :
    find? (utf8 (w :: word)) (utf8 (c :: cs)) =
      (find? (utf8 (w :: word)) (utf8 cs)).map (size [c] + ·) := by
  have hw : Single w := hword w List.mem_cons_self
  by_cases hc : Single c
  · have hbytes : utf8 (c :: cs) = c.toUInt8 :: utf8 cs := by rw [utf8_cons, hc.encode]; rfl
    rw [← isPrefixOf_utf8 hword, hbytes] at hnot
    rw [hbytes, find?, if_neg (by simp [hnot]), hc.size]
    simp only [Nat.add_comm]
  · have hbytes : utf8 (w :: word) = w.toUInt8 :: utf8 word := by rw [utf8_cons, hw.encode]; rfl
    have hmem : w.toUInt8 ∉ String.utf8EncodeChar c := fun h => ne_of_mem_encode hc hw h rfl
    rw [hbytes, utf8_cons, find?_append hmem, ← length_utf8]
    simp only [utf8, List.flatMap_cons, List.flatMap_nil, List.append_nil]

/-- The first occurrence of a word of characters of one byte, in characters and in bytes. -/
theorem find?_utf8 (cs : List Char) :
    (find? (utf8 (w :: word)) (utf8 cs)).map (· + size (w :: word)) =
      (Text.splitAfter (w :: word) cs).map fun parts => size parts.1 := by
  induction cs with
  | nil =>
    have hw : Single w := hword w List.mem_cons_self
    rw [utf8_cons, hw.encode]
    rfl
  | cons c cs ih =>
    rw [Text.splitAfter]
    split
    · rename_i hp
      rw [find?_of_isPrefixOf ((isPrefixOf_utf8 hword _).trans hp)]
      simp
    · rename_i hp
      rw [find?_utf8_cons hword (Bool.eq_false_of_not_eq_true hp)]
      generalize find? (utf8 (w :: word)) (utf8 cs) = found at ih
      calc (found.map (size [c] + ·)).map (· + size (w :: word))
        _ = (found.map (· + size (w :: word))).map (size [c] + ·) := by
          simp only [Option.map_map, Function.comp_def, Nat.add_assoc]
        _ = (Text.splitAfter (w :: word) cs).map fun parts => size (c :: parts.1) := by
          rw [ih]
          simp only [Option.map_map, Function.comp_def, ← size_append, List.singleton_append]
        _ = _ := by simp only [Option.map_map, Function.comp_def]

end

section

variable {cs terminator : List Char}

theorem single_of_chunkEnd? (h : chunkEnd? cs = some terminator) :
    ∃ w word, terminator = w :: word ∧ ∀ c ∈ w :: word, Single c := by
  rcases chunkEnd?_eq_some h with ⟨-, rfl⟩ | ⟨-, rfl⟩
  · exact ⟨'?', ['>'], rfl, fun c => single_of_all (by decide)⟩
  · exact ⟨'-', ['-', '>'], rfl, fun c => single_of_all (by decide)⟩

theorem chunkOf_of_none (h : chunkEnd? cs = none) : chunkOf (String.ofList cs) = .absent := by
  rw [chunkOf, String.toList_ofList, h]

/-- A chunk has the same end in characters and in bytes. -/
theorem chunkOf_of_some (h : chunkEnd? cs = some terminator) :
    chunkOf (String.ofList cs) =
      (takeChunk terminator cs).elim .unended fun parts => .ended (size parts.1) := by
  obtain ⟨w, word, rfl, hword⟩ := single_of_chunkEnd? h
  have hfind := find?_utf8 hword cs
  rw [chunkOf, String.toList_ofList, h, takeChunk]
  dsimp only
  rw [octets_ofList, octets_ofList, ← utf8, ← utf8, length_utf8]
  cases hbytes : find? (utf8 (w :: word)) (utf8 cs) with
  | none =>
    rw [hbytes, Option.map_none, eq_comm, Option.map_eq_none_iff] at hfind
    rw [hfind]
    rfl
  | some offset =>
    rw [hbytes, Option.map_some, eq_comm, Option.map_eq_some_iff] at hfind
    obtain ⟨parts, hparts, hsize⟩ := hfind
    rw [hparts]
    exact congrArg Chunk.ended hsize.symm

end

/-! ## Searches -/

section

variable {α : Type} {search : Search α} {place : α}

theorem run_of_on {next : α} (h : search.step place = .ok (.on next)) :
    search.run place = search.run next := by
  rw [Search.run.eq_def]
  split <;> simp_all

theorem run_of_found {offset : Nat} (h : search.step place = .ok (.found offset)) :
    search.run place = .ok (some offset) := by
  rw [Search.run.eq_def]
  split <;> simp_all

theorem run_of_missing (h : search.step place = .ok .missing) : search.run place = .ok none := by
  rw [Search.run.eq_def]
  split <;> simp_all

end

/-- The offset behind what a scan has taken, if it began behind `front`. -/
def endOf (front : List Char) (parts : Option (List Char × List Char)) : Option Nat :=
  parts.map fun parts => size (front ++ parts.1)

theorem endOf_before (front piece : List Char) (parts : Option (List Char × List Char)) :
    endOf front (parts.map (before piece)) = endOf (front ++ piece) parts := by
  rw [endOf, endOf, Option.map_map]
  congr 1
  funext parts
  rw [List.append_assoc]
  rfl

/-! ## In front of the declaration -/

theorem cut_ofList (front rest : List Char) :
    cut (String.ofList (front ++ rest)) (size front) =
      .ok (String.ofList front, String.ofList rest) := by
  rw [String.ofList_append]
  exact cut_append _ _

theorem dropWhile_ofList (p : Char → Bool) (cs : List Char) :
    dropWhile p (String.ofList cs) = String.ofList (cs.dropWhile p) := by
  rw [dropWhile, String.toList_ofList]

theorem offsetOf_append (front rest : List Char) :
    offsetOf (String.ofList (front ++ rest)) (String.ofList rest) = size front := by
  rw [offsetOf, ← size, ← size, size_append, Nat.add_sub_cancel]

/-- The offset of what is left when characters at the start are dropped. -/
theorem offsetOf_dropWhile (p : Char → Bool) (front rest : List Char) :
    offsetOf (String.ofList (front ++ rest)) (String.ofList (rest.dropWhile p)) =
      size (front ++ rest.takeWhile p) := by
  rw [← offsetOf_append (front ++ rest.takeWhile p) (rest.dropWhile p), List.append_assoc,
    List.takeWhile_append_dropWhile]

section

variable {front rest : List Char}

theorem seek_of_doctype (h : doctypeStart.isPrefixOf (rest.dropWhile Text.isBlank) = true) :
    seek (String.ofList (front ++ rest)) (size front) =
      .ok (.found (size (front ++ rest.takeWhile Text.isBlank))) := by
  rw [seek, cut_ofList]
  dsimp only
  rw [dropWhile_ofList, String.toList_ofList, if_pos h, offsetOf_dropWhile]

variable (h : ¬ doctypeStart.isPrefixOf (rest.dropWhile Text.isBlank) = true)
include h

theorem seek_of_none (hend : chunkEnd? (rest.dropWhile Text.isBlank) = none) :
    seek (String.ofList (front ++ rest)) (size front) = .ok .missing := by
  rw [seek, cut_ofList]
  dsimp only
  rw [dropWhile_ofList, String.toList_ofList, if_neg h, chunkOf_of_none hend]

theorem seek_of_unended {terminator : List Char}
    (hend : chunkEnd? (rest.dropWhile Text.isBlank) = some terminator)
    (hchunk : takeChunk terminator (rest.dropWhile Text.isBlank) = none) :
    seek (String.ofList (front ++ rest)) (size front) = .ok .missing := by
  rw [seek, cut_ofList]
  dsimp only
  rw [dropWhile_ofList, String.toList_ofList, if_neg h, chunkOf_of_some hend, hchunk]
  rfl

theorem seek_of_chunk {terminator chunk more : List Char}
    (hend : chunkEnd? (rest.dropWhile Text.isBlank) = some terminator)
    (hchunk : takeChunk terminator (rest.dropWhile Text.isBlank) = some (chunk, more)) :
    seek (String.ofList (front ++ rest)) (size front) =
      .ok (.on (size (front ++ (rest.takeWhile Text.isBlank ++ chunk)))) := by
  rw [seek, cut_ofList]
  dsimp only
  rw [dropWhile_ofList, String.toList_ofList, if_neg h, chunkOf_of_some hend, hchunk,
    offsetOf_dropWhile, ← List.append_assoc, size_append _ chunk]
  rfl

end

/-- The search along the bytes stops where the search along the characters does. -/
theorem run_startSearch (front rest : List Char) :
    (startSearch (String.ofList (front ++ rest))).run (size front) =
      .ok (endOf front (beforeDoctype rest)) := by
  rw [beforeDoctype_eq]
  by_cases h : doctypeStart.isPrefixOf (rest.dropWhile Text.isBlank) = true
  · rw [if_pos h]
    exact run_of_found (seek_of_doctype h)
  · rw [if_neg h]
    cases hend : chunkEnd? (rest.dropWhile Text.isBlank) with
    | none => exact run_of_missing (seek_of_none h hend)
    | some terminator =>
      rw [Option.bind_some]
      cases hchunk : takeChunk terminator (rest.dropWhile Text.isBlank) with
      | none => exact run_of_missing (seek_of_unended h hend hchunk)
      | some parts =>
        obtain ⟨chunk, more⟩ := parts
        have : more.length < rest.length :=
          (length_lt_of_takeChunk (chunkEnd?_ne_nil hend) hchunk).trans_le
            (List.dropWhile_suffix _).length_le
        have hrest : front ++ rest = front ++ (rest.takeWhile Text.isBlank ++ chunk) ++ more := by
          have hdrop := (isChunk_of_takeChunk hend hchunk).1
          rw [List.append_assoc, List.append_assoc, ← hdrop, List.takeWhile_append_dropWhile]
        refine (run_of_on (seek_of_chunk h hend hchunk)).trans ?_
        rw [Option.bind_some, endOf_before, hrest]
        exact run_startSearch _ more
termination_by rest.length

/-! ## Inside the declaration -/

/-- The byte at which the scan looks. -/
theorem scan_eq_read {source : String} {place : Place} {first second : List UInt8} {b : UInt8}
    (hsource : octets source = first ++ b :: second) (hoffset : place.offset = first.length) :
    scan source place = place.read source b := by
  have hlt : place.offset < source.toByteArray.size := by
    have hlength := congrArg List.length hsource
    rw [octets, Array.length_toList, List.length_append, List.length_cons] at hlength
    have hsize : source.toByteArray.data.size = source.toByteArray.size := rfl
    omega
  have hget : source.toByteArray.data.toList[place.offset]? = some b := by
    rw [← octets, hsource, hoffset]
    simp
  have hbyte : source.toByteArray[place.offset] = b := by
    rw [ByteArray.getElem_eq_getElem_data, ← Array.getElem_toList]
    exact (List.getElem?_eq_some_iff.1 hget).2
  rw [scan, dif_pos hlt, hbyte]

theorem single_of_mem_markup {c : Char} : c ∈ markup → Single c := single_of_all (by decide)

/-- The place behind some characters, with an open quote and a number of open brackets. -/
def placeAt (front : List Char) (quote : Option Char) (depth : Nat) : Place :=
  ⟨size front, quote.map Char.toUInt8, depth⟩

section

variable {quote : Option Char} (hquote : ∀ q, quote = some q → Single q) {depth : Nat}
include hquote

/-- A byte of a character of several bytes is passed over. -/
theorem read_of_mem_encode (source : String) (offset depth : Nat) {c : Char} (hc : ¬ Single c)
    {b : UInt8} (hb : b ∈ String.utf8EncodeChar c) :
    Place.read ⟨offset, quote.map Char.toUInt8, depth⟩ source b =
      .ok (.on ⟨offset + 1, quote.map Char.toUInt8, depth⟩) := by
  have hmark : ∀ d ∈ markup, b ≠ d.toUInt8 := fun d hd =>
    ne_of_mem_encode hc (single_of_mem_markup hd) hb
  simp only [markup, List.forall_mem_cons] at hmark
  obtain ⟨hlt, hgt, hdouble, hsingle, hopen, hclose, -⟩ := hmark
  cases quote with
  | some q => simp [Place.read, Place.past, ne_of_mem_encode hc (hquote q rfl) hb]
  | none => simp [Place.read, Place.chunk, Place.past, hlt, hgt, hdouble, hsingle, hopen, hclose]

/-- The scan comes from one end to the other of bytes that belong to a character of several
bytes. -/
theorem run_of_subset {source : String} {c : Char} (hc : ¬ Single c) {bytes : List UInt8}
    (hbytes : bytes ⊆ String.utf8EncodeChar c) {first second : List UInt8}
    (hsource : octets source = first ++ bytes ++ second) :
    (endSearch source).run ⟨first.length, quote.map Char.toUInt8, depth⟩ =
      (endSearch source).run ⟨(first ++ bytes).length, quote.map Char.toUInt8, depth⟩ := by
  induction bytes generalizing first with
  | nil => rw [List.append_nil]
  | cons b bytes ih =>
    have hbyte : octets source = first ++ b :: (bytes ++ second) := by simp [hsource]
    have hmore : octets source = first ++ [b] ++ bytes ++ second := by simp [hsource]
    have hread := read_of_mem_encode hquote source first.length depth hc (hbytes List.mem_cons_self)
    rw [run_of_on ((scan_eq_read hbyte rfl).trans hread)]
    simpa using ih (fun _ h => hbytes (List.mem_cons_of_mem b h)) hmore

end

/-! ### From character to character -/

section

variable {front rest : List Char} {c : Char} {depth : Nat}

theorem octets_eq (front : List Char) (c : Char) (rest : List Char) :
    octets (String.ofList (front ++ c :: rest)) =
      utf8 front ++ String.utf8EncodeChar c ++ utf8 rest := by
  rw [octets_ofList, ← utf8, utf8_append, utf8_cons, List.append_assoc]

theorem size_concat (front : List Char) (c : Char) :
    size (front ++ [c]) = (utf8 front ++ String.utf8EncodeChar c).length := by
  rw [← length_utf8, utf8_append, utf8_cons, utf8, utf8, List.flatMap_nil, List.append_nil]

/-- A character of several bytes is passed over. -/
theorem run_of_not_single {quote : Option Char} (hquote : ∀ q, quote = some q → Single q)
    (hc : ¬ Single c) :
    (endSearch (String.ofList (front ++ c :: rest))).run (placeAt front quote depth) =
      (endSearch (String.ofList (front ++ c :: rest))).run
        (placeAt (front ++ [c]) quote depth) := by
  -- the offsets in between lie inside the character
  rw [placeAt, placeAt, ← length_utf8, size_concat]
  exact run_of_subset hquote hc (List.Subset.refl _) (octets_eq front c rest)

/-- At a character of one byte the scan reads it. -/
theorem scan_of_single (hc : Single c) (quote : Option Char) :
    scan (String.ofList (front ++ c :: rest)) (placeAt front quote depth) =
      (placeAt front quote depth).read (String.ofList (front ++ c :: rest)) c.toUInt8 := by
  have hbytes : octets (String.ofList (front ++ c :: rest)) =
      utf8 front ++ c.toUInt8 :: utf8 rest := by
    rw [octets_eq, hc.encode, List.append_assoc]
    rfl
  exact scan_eq_read hbytes (length_utf8 front).symm

theorem past_some (hc : Single c) {q : Char} (hq : Single q) :
    (placeAt front (some q) depth).past c.toUInt8 =
      placeAt (front ++ [c]) (if c == q then none else some q) depth := by
  rw [placeAt, placeAt, size_append, hc.size]
  simp only [Place.past, Option.map_some, hc.beq_toUInt8 hq]
  split <;> rfl

theorem past_none (hc : Single c) :
    (placeAt front none depth).past c.toUInt8 =
      placeAt (front ++ [c]) (if c == '"' || c == '\'' then some c else none)
        (if c == '[' then depth + 1 else if c == ']' then depth - 1 else depth) := by
  have hmark : ∀ d ∈ markup, (c.toUInt8 == d.toUInt8) = (c == d) := fun d hd =>
    hc.beq_toUInt8 (single_of_mem_markup hd)
  simp only [markup, List.forall_mem_cons] at hmark
  obtain ⟨-, -, hdouble, hsingle, hopen, hclose, -⟩ := hmark
  rw [placeAt, placeAt, size_append, hc.size]
  simp only [Place.past, Option.map_none, hdouble, hsingle, hopen, hclose]
  split <;> rfl

/-- At a `<` outside quotes the text can be cut. -/
theorem chunk_eq (hc : Single c) :
    (placeAt front none depth).chunk (String.ofList (front ++ c :: rest)) c.toUInt8 =
      .ok (chunkOf (String.ofList (c :: rest))) := by
  have hlt : Single '<' := by decide
  rw [Place.chunk, hc.beq_toUInt8 hlt]
  split
  · have hcut := cut_append (String.ofList front) (String.ofList (c :: rest))
    rw [String.ofList_append]
    simp only [placeAt, size, hcut]
  · rename_i hne
    rw [chunkOf_of_none (chunkEnd?_of_ne (by simpa using hne) rest)]

section

variable (hc : Single c)
include hc

theorem scan_of_quote {q : Char} (hq : Single q) :
    scan (String.ofList (front ++ c :: rest)) (placeAt front (some q) depth) =
      .ok (.on (placeAt (front ++ [c]) (if c == q then none else some q) depth)) := by
  rw [scan_of_single hc, ← past_some hc hq]
  rfl

theorem scan_of_unended {terminator : List Char} (hend : chunkEnd? (c :: rest) = some terminator)
    (hchunk : takeChunk terminator (c :: rest) = none) :
    scan (String.ofList (front ++ c :: rest)) (placeAt front none depth) = .ok .missing := by
  rw [scan_of_single hc, Place.read, chunk_eq hc, chunkOf_of_some hend, hchunk]
  rfl

theorem scan_of_chunk {terminator chunk more : List Char}
    (hend : chunkEnd? (c :: rest) = some terminator)
    (hchunk : takeChunk terminator (c :: rest) = some (chunk, more)) :
    scan (String.ofList (front ++ c :: rest)) (placeAt front none depth) =
      .ok (.on (placeAt (front ++ chunk) none depth)) := by
  rw [scan_of_single hc, Place.read, chunk_eq hc, chunkOf_of_some hend, hchunk, placeAt, placeAt,
    size_append]
  rfl

theorem scan_of_plain (hend : chunkEnd? (c :: rest) = none) :
    scan (String.ofList (front ++ c :: rest)) (placeAt front none depth) =
      if c == '>' && depth == 0 then .ok (.found (size (front ++ [c])))
      else .ok (.on (placeAt (front ++ [c]) (if c == '"' || c == '\'' then some c else none)
        (if c == '[' then depth + 1 else if c == ']' then depth - 1 else depth))) := by
  have hgt : Single '>' := by decide
  rw [scan_of_single hc, ← past_none hc, Place.read, chunk_eq hc, chunkOf_of_none hend,
    hc.beq_toUInt8 hgt, size_append, hc.size]
  rfl

end

end

theorem insideDoctype_of_not_single {quote : Option Char}
    (hquote : ∀ q, quote = some q → Single q) {c : Char} (hc : ¬ Single c) (depth : Nat)
    (rest : List Char) :
    insideDoctype quote depth (c :: rest) = (insideDoctype quote depth rest).map (before [c]) := by
  cases quote with
  | some q =>
    have hne : ¬ (c == q) = true := fun h => hc (beq_iff_eq.1 h ▸ hquote q rfl)
    rw [insideDoctype_quote, if_neg hne]
  | none =>
    have hplain : [c] ∈ avoiding markup := mem_avoiding.2 fun d hd hmem => hc <| by
      rw [← List.mem_singleton.1 hd]
      exact single_of_mem_markup hmem
    exact avoiding_markup_le_passed depth hplain rest

/-- The scan along the bytes stops where the scan along the characters does. -/
theorem run_endSearch (front rest : List Char) {quote : Option Char}
    (hquote : ∀ q, quote = some q → Single q) (depth : Nat) :
    (endSearch (String.ofList (front ++ rest))).run (placeAt front quote depth) =
      .ok (endOf front (insideDoctype quote depth rest)) := by
  -- by induction on what is left, between two characters: a chunk is passed over in one step, and a
  -- character of several bytes in as many steps as it has bytes
  cases rest with
  | nil =>
    have hend : ¬ (placeAt front quote depth).offset <
        (String.ofList (front ++ [])).toByteArray.size := by
      rw [List.append_nil]
      exact Nat.lt_irrefl _
    rw [run_of_missing (dif_neg hend), insideDoctype]
    rfl
  | cons c rest =>
    have hnext : front ++ c :: rest = front ++ [c] ++ rest := by simp
    by_cases hc : Single c
    · cases quote with
      | some q =>
        have hq := hquote q rfl
        have hquote' : ∀ q', (if c == q then none else some q) = some q' → Single q' := by
          grind
        rw [run_of_on (scan_of_quote hc hq), insideDoctype_quote, endOf_before, hnext]
        exact run_endSearch (front ++ [c]) rest hquote' depth
      | none =>
        cases hend : chunkEnd? (c :: rest) with
        | some terminator =>
          rw [insideDoctype_eq_bind depth hend]
          cases hchunk : takeChunk terminator (c :: rest) with
          | none =>
            rw [run_of_missing (scan_of_unended hc hend hchunk)]
            rfl
          | some parts =>
            obtain ⟨chunk, more⟩ := parts
            have : more.length ≤ rest.length :=
              Nat.le_of_lt_succ (length_lt_of_takeChunk (chunkEnd?_ne_nil hend) hchunk)
            rw [run_of_on (scan_of_chunk hc hend hchunk), Option.bind_some, endOf_before,
              (isChunk_of_takeChunk hend hchunk).1, ← List.append_assoc]
            exact run_endSearch (front ++ chunk) more hquote depth
        | none =>
          have hstep : scan (String.ofList (front ++ c :: rest)) (placeAt front none depth) = _ :=
            scan_of_plain hc hend
          have hquote' : ∀ q, (if c == '"' || c == '\'' then some c else none) = some q →
              Single q := by
            grind
          rw [insideDoctype_of_not_chunk depth hend]
          by_cases hclose : (c == '>' && depth == 0) = true
          · rw [if_pos hclose] at hstep ⊢
            rw [run_of_found hstep]
            rfl
          · rw [if_neg hclose] at hstep ⊢
            rw [run_of_on hstep, endOf_before, hnext]
            exact run_endSearch (front ++ [c]) rest hquote' _
    · rw [run_of_not_single hquote hc, insideDoctype_of_not_single hquote hc, endOf_before, hnext]
      exact run_endSearch (front ++ [c]) rest hquote depth
termination_by rest.length

/-! ## The text without its declaration -/

/-- A declaration is cut out if it ends; both cuts are made between two characters. -/
theorem withoutDeclaration_eq (front more : List Char) :
    withoutDeclaration (String.ofList (front ++ doctypeStart ++ more)) (size front) =
      .ok (String.ofList ((insideDoctype none 0 more).elim (front ++ doctypeStart ++ more)
        fun parts => front ++ parts.2)) := by
  have hinside : Place.mk (size front + (String.ofList doctypeStart).utf8ByteSize) none 0 =
      placeAt (front ++ doctypeStart) none 0 := by
    rw [placeAt, size_append]
    rfl
  have hnone : ∀ q, (none : Option Char) = some q → Single q := fun q h => by cases h
  rw [withoutDeclaration, hinside, run_endSearch _ _ hnone]
  cases hscan : insideDoctype none 0 more with
  | none => rfl
  | some parts =>
    obtain ⟨body, rest⟩ := parts
    obtain ⟨rfl, -⟩ := append_of_insideDoctype hscan
    have hstart := cut_ofList front (doctypeStart ++ (body ++ rest))
    have hstop := cut_ofList (front ++ doctypeStart ++ body) rest
    rw [← List.append_assoc] at hstart
    rw [List.append_assoc _ body rest] at hstop
    change (do return (← cut _ (size front)).1 ++
      (← cut _ (size (front ++ doctypeStart ++ body))).2) = _
    rw [hstart, hstop]
    exact congrArg Except.ok String.ofList_append.symm

/-- The declaration is cut out of the bytes as it is cut out of the characters. -/
theorem withoutDoctype_eq (cs : List Char) :
    withoutDoctype (String.ofList cs) = .ok (String.ofList (Xml.stripDoctype cs)) := by
  obtain ⟨marks, hmarks⟩ : ∃ marks, cs.takeWhile (fun c => c == Char.ofNat 0xFEFF) = marks :=
    ⟨_, rfl⟩
  obtain ⟨rest, hrest⟩ : ∃ rest, cs.dropWhile (fun c => c == Char.ofNat 0xFEFF) = rest := ⟨_, rfl⟩
  have hcs : cs = marks ++ rest := by rw [← hmarks, ← hrest, List.takeWhile_append_dropWhile]
  have hoffset : offsetOf (String.ofList cs)
      (dropWhile (fun c => c == Char.ofNat 0xFEFF) (String.ofList cs)) = size marks := by
    rw [dropWhile_ofList, ← hmarks]
    exact offsetOf_dropWhile _ [] cs
  rw [withoutDoctype, Xml.stripDoctype, findDoctype]
  dsimp only
  rw [hoffset, hmarks, hrest, hcs, run_startSearch]
  cases hbefore : beforeDoctype rest with
  | none => rfl
  | some parts =>
    obtain ⟨front, declaration⟩ := parts
    obtain ⟨rfl, -, more, rfl⟩ := leadParts_of_beforeDoctype hbefore
    have hcut := withoutDeclaration_eq (marks ++ front) more
    rw [List.append_assoc, List.append_assoc] at hcut
    refine hcut.trans ?_
    simp only [Option.bind_eq_bind, Option.bind_some, List.drop_left]
    cases insideDoctype none 0 more <;> rfl

/-- **Cutting stored texts.** Whatever a text holds, both searches end and no cut is refused: every
offset at which the text is cut lies in it and between two of its characters. The result is that of
the cut on characters. If the text divides, it is what stands in front of the declaration and what
follows it, and otherwise it is the text as it was. -/
theorem doctype_cut_between_characters (source : String) :
    ∃ text, withoutDoctype source = .ok text ∧
      text.toList = Xml.stripDoctype source.toList ∧
      ((∃ front declaration rest, Divides source.toList front declaration rest ∧
          text.toList = front ++ rest) ∨
        (¬ ∃ front declaration rest, Divides source.toList front declaration rest) ∧
          text = source) := by
  have hcut := withoutDoctype_eq source.toList
  rw [String.ofList_toList] at hcut
  refine ⟨_, hcut, String.toList_ofList, ?_⟩
  cases hfound : findDoctype source.toList with
  | some parts =>
    obtain ⟨front, declaration, rest⟩ := parts
    refine Or.inl ⟨front, declaration, rest, findDoctype_eq_some_iff.1 hfound, ?_⟩
    rw [String.toList_ofList, Xml.stripDoctype, hfound]
  | none =>
    refine Or.inr ⟨?_, ?_⟩
    · rintro ⟨front, declaration, rest, hdivides⟩
      rw [findDoctype_eq_some_iff.2 hdivides] at hfound
      cases hfound
    · rw [Xml.stripDoctype, hfound, String.ofList_toList]

end RobotSketch.Xml.Bytes
