import GrubLegacy.Stage2.GzipFiles

/-!
# Which files are taken for compressed ones

What `gunzip_test_header` makes of every file: one without the magic number is read as it is,
and one with it has to have a complete header that the code supports.
-/

namespace GrubLegacy.Gunzip

open Base CStrings Stage2 Loader BlockFiles

/-! ## The header of a file -/

/-- What follows the extra field, if the flags announce one; nothing if it is incomplete. -/
def skipExtra (flags : UInt8) (text : List UInt8) : Option (List UInt8) :=
  if flags &&& 0x04 = 0 then some text
  else if 2 ≤ text.length ∧ 2 + halfAt text 0 ≤ text.length then some (text.drop (2 + halfAt text 0))
  else none

/-- What follows a string, if the flags announce it; nothing if it has no end. -/
def skipString (flags mask : UInt8) (text : List UInt8) : Option (List UInt8) :=
  if flags &&& mask = 0 then some text
  else if 0 ∈ text then some ((text.dropWhile (· ≠ 0)).drop 1)
  else none

/-- What follows the extra field, the name and the comment. -/
def fieldsEnd (flags : UInt8) (text : List UInt8) : Option (List UInt8) :=
  ((skipExtra flags text).bind (skipString flags 0x08)).bind (skipString flags 0x10)

/-- What follows the header, if the method is deflate, no flag is an unsupported one and the
fields are complete. -/
def headerEnd (content : List UInt8) : Option (List UInt8) :=
  if content.getD 2 0 = 8 ∧ content.getD 3 0 &&& 0xE2 = 0 then
    fieldsEnd (content.getD 3 0) (content.drop 10)
  else none

/-- What the header test should make of a file, with the word at the end of the file as the
size that it stands for. -/
structure RecognisesHeader (size : Nat → Int) (file : OpenFile) (result : FileState × Bool) :
    Prop where
  plain : (result.2 = true ∧ result.1.compressedFile = false ∧ result.1.filepos = 0) ↔
    file.content.length < 10 ∨ isGzip file.content = false
  gzip : 10 ≤ file.content.length → isGzip file.content = true →
    ((result.2 = true ∧ result.1.compressedFile = true) ↔ (headerEnd file.content).isSome)
  data : 10 ≤ file.content.length → isGzip file.content = true →
    ∀ rest, headerEnd file.content = some rest →
      result.1.gzipDataOffset = file.content.length - rest.length ∧
        result.1.filemax = size (wordAt file.content (file.content.length - 4))
  corrupt : 10 ≤ file.content.length → isGzip file.content = true →
    headerEnd file.content = none → result.2 = false ∧ result.1.errnum = .badGzipHeader

/-- A text with a NUL begins with a string. -/
theorem exists_string {text : List UInt8} (ends : 0 ∈ text) :
    ∃ name rest, NulFree name ∧ text = name ++ 0 :: rest := by
  induction text with
  | nil => simp at ends
  | cons c text ih =>
      by_cases nul : c = 0
      · exact ⟨[], text, by simp [NulFree], by rw [nul]; rfl⟩
      · obtain ⟨name, rest, free, rfl⟩ := ih (List.mem_of_ne_of_mem (Ne.symm nul) ends)
        refine ⟨c :: name, rest, fun other member => ?_, rfl⟩
        rcases List.mem_cons.mp member with rfl | later
        · exact nul
        · exact free other later

/-! ## Reads up to the end of the file -/

section Reads

variable {file : OpenFile} {state : FileState} {front text : List UInt8}

/-- A read that asks for more than there is gets what there is. -/
theorem readRaw_short (readable : Readable file) (split : file.content = front ++ text)
    (opened : OpenAt file front state) {len : Nat} (short : text.length < len) :
    readRaw file state len =
      { stored := text, returned := text.length, state := state.behind (front ++ text) } := by
  have size : file.filemax = front.length + text.length := by
    rw [OpenFile.filemax, split]
    simp
  have supported := readable.supported
  have end_ : file.content = front ++ text ++ [] := by rw [split, List.append_nil]
  have whole := readRaw_part readable end_ opened
  obtain ⟨filemax, fsmax, filepos, errnum⟩ := opened
  rw [readRaw, readSane_place _ (by omega) (by omega) (by omega)] at whole ⊢
  rw [saneLen_of_range (by omega) (by omega)] at whole
  rw [saneLen, if_pos (by omega), ← whole]
  congr 1
  omega

/-- A field that does not end in the file is bad: the bytes are too few, or none is a NUL. -/
theorem badField_unending (readable : Readable file) {fuel : Nat} {len : Int} {ch : UInt8}
    (split : file.content = front ++ text) (opened : OpenAt file front state)
    (counted : 0 ≤ len → text.length < len) (string : len < 0 → ch ≠ 0 ∧ NulFree text)
    (enough : text.length < fuel) :
    ∃ after, badField file fuel state len ch = (after, true) ∧ after.errnum = .none := by
  induction text generalizing front state fuel len ch with
  | nil =>
      obtain ⟨fuel, rfl⟩ := Nat.exists_eq_succ_of_ne_zero (Nat.ne_of_gt enough)
      have goesOn : ¬ (len = 0 ∨ len < 0 ∧ ch = 0) := by
        rintro (rfl | ⟨negative, nul⟩)
        · exact absurd (counted le_rfl) (by simp)
        · exact (string negative).1 nul
      have read := @readRaw_short _ _ _ _ readable split opened 1 Nat.one_pos
      rw [Nat.cast_one] at read
      refine ⟨state.behind (front ++ []), ?_, opened.errnum⟩
      rw [badField, if_neg goesOn, read]
      rfl
  | cons c text ih =>
      obtain ⟨fuel, rfl⟩ := Nat.exists_eq_succ_of_ne_zero (Nat.ne_of_gt (Nat.zero_lt_of_lt enough))
      rw [List.length_cons] at counted enough
      have goesOn : ¬ (len = 0 ∨ len < 0 ∧ ch = 0) := by
        rintro (rfl | ⟨negative, nul⟩)
        · exact absurd (counted le_rfl) (by omega)
        · exact (string negative).1 nul
      have byte : file.content = front ++ [c] ++ text := by rw [split]; simp
      have read := readRaw_byte readable byte opened
      obtain ⟨after, bad, clear⟩ := @ih (state.behind (front ++ [c])) (front ++ [c]) fuel
        (if 0 ≤ len then len - 1 else len) c byte (opened.moved [c])
        (by intro left; split at left <;> omega)
        (by
          intro negative
          have among := (string (by split at negative <;> omega)).2
          exact ⟨among c List.mem_cons_self, fun other member =>
            among other (List.mem_cons_of_mem _ member)⟩)
        (by omega)
      refine ⟨after, ?_, clear⟩
      rw [badField, if_neg goesOn, read]
      simpa using bad

/-! ## The fields -/

/-- A part of the header has been read up to what follows it, or it is bad. -/
inductive Skips (front text : List UInt8) (state : FileState) :
    Option (List UInt8) → FileState × Bool → Prop
  | done (field rest : List UInt8) (split : text = field ++ rest) :
      Skips front text state (some rest) (state.behind (front ++ field), false)
  | bad (after : FileState) (clear : after.errnum = .none) :
      Skips front text state none (after, true)

/-- `bad_field` with a length. -/
theorem skips_counted (readable : Readable file) (split : file.content = front ++ text)
    (opened : OpenAt file front state) (len : Nat) :
    Skips front text state (if len ≤ text.length then some (text.drop len) else none)
      (runBadField file state len) := by
  by_cases fits : len ≤ text.length
  · have taken : (text.take len).length = len := List.length_take_of_le fits
    have whole : file.content = front ++ text.take len ++ text.drop len := by
      rw [List.append_assoc, List.take_append_drop, split]
    have skipped := runBadField_counted readable whole opened
    rw [taken] at skipped
    rw [if_pos fits, skipped]
    exact .done _ _ (List.take_append_drop len text).symm
  · have size : (text.length : Int) ≤ state.filemax := by
      rw [opened.filemax, OpenFile.filemax, split, List.length_append]
      omega
    have unending : ∃ after, runBadField file state len = (after, true) ∧ after.errnum = .none :=
      badField_unending readable split opened (by omega) (by omega) (by omega)
    obtain ⟨after, bad, clear⟩ := unending
    rw [if_neg fits, bad]
    exact .bad after clear

/-- `bad_field` up to a NUL. -/
theorem skips_string (readable : Readable file) (split : file.content = front ++ text)
    (opened : OpenAt file front state) :
    Skips front text state
      (if 0 ∈ text then some ((text.dropWhile (· ≠ 0)).drop 1) else none)
      (runBadField file state (-1)) := by
  by_cases ends : 0 ∈ text
  · obtain ⟨name, rest, free, rfl⟩ := exists_string ends
    have behind : ((name ++ 0 :: rest).dropWhile (· ≠ 0)).drop 1 = rest := by
      rw [List.dropWhile_append_of_pos fun c member => by simpa using free c member]
      simp
    have whole : file.content = front ++ encodeString name ++ rest := by
      rw [split, encodeString]
      simp
    rw [if_pos ends, behind, runBadField_string readable free whole opened]
    exact .done _ _ (by simp [encodeString])
  · have size : (text.length : Int) ≤ state.filemax := by
      rw [opened.filemax, OpenFile.filemax, split, List.length_append]
      omega
    have free : NulFree text := fun c member nul => ends (nul ▸ member)
    have unending : ∃ after, runBadField file state (-1) = (after, true) ∧ after.errnum = .none :=
      badField_unending readable split opened (by omega) (fun _ => ⟨by decide, free⟩) (by omega)
    obtain ⟨after, bad, clear⟩ := unending
    rw [if_neg ends, bad]
    exact .bad after clear

/-- What is read behind a part of the text. -/
theorem Skips.behind {first : List UInt8} {rest : Option (List UInt8)}
    {result : FileState × Bool}
    (skips : Skips (front ++ first) text (state.behind (front ++ first)) rest result) :
    Skips front (first ++ text) state rest result := by
  cases skips with
  | done field rest split =>
      rw [behind_behind, List.append_assoc]
      exact .done _ rest (by rw [split, List.append_assoc])
  | bad after clear => exact .bad after clear

/-- The extra field. -/
theorem skips_extra (readable : Readable file) (split : file.content = front ++ text)
    (opened : OpenAt file front state) (flags : UInt8) :
    Skips front text state (skipExtra flags text)
      (if flags &&& 0x04 = 0 then (state, false)
      else
        if (readRaw file state 2).returned ≠ 2 then ((readRaw file state 2).state, true)
        else runBadField file (readRaw file state 2).state
          (halfAt (readRaw file state 2).stored 0)) := by
  rw [skipExtra]
  by_cases absent : flags &&& 0x04 = 0
  · have still : Skips front text state (some text) (state.behind (front ++ []), false) :=
      .done [] text rfl
    rw [List.append_nil, opened.behind] at still
    rwa [if_pos absent, if_pos absent]
  rw [if_neg absent, if_neg absent]
  by_cases short : text.length < 2
  · have read := readRaw_short readable split opened short
    have other : (text.length : Int) ≠ 2 := by omega
    rw [Nat.cast_ofNat] at read
    rw [if_neg (by omega), read, if_pos other]
    exact .bad _ opened.errnum
  · obtain ⟨low, high, fields, rfl⟩ : ∃ low high fields, text = low :: high :: fields := by
      match text with
      | low :: high :: fields => exact ⟨low, high, fields, rfl⟩
      | [] => exact absurd Nat.two_pos short
      | [only] => exact absurd Nat.one_lt_two short
    have whole : file.content = front ++ [low, high] ++ fields := by
      rw [split, List.append_assoc]
      rfl
    have read := readRaw_part readable whole opened
    have counted := skips_counted readable whole (opened.moved [low, high]) (halfAt [low, high] 0)
    have two : (([low, high] : List UInt8).length : Int) = 2 := rfl
    have size : halfAt (low :: high :: fields) 0 = halfAt [low, high] 0 := rfl
    have fits : (2 ≤ (low :: high :: fields).length ∧
        2 + halfAt [low, high] 0 ≤ (low :: high :: fields).length) ↔
        halfAt [low, high] 0 ≤ fields.length := by
      rw [List.length_cons, List.length_cons]
      omega
    have dropped : (low :: high :: fields).drop (2 + halfAt [low, high] 0) =
        fields.drop (halfAt [low, high] 0) := by
      rw [← List.drop_drop]
      rfl
    rw [two] at read
    rw [read, size, dropped]
    simp only [fits, ne_eq, not_true_eq_false, if_false]
    exact counted.behind

/-- An optional string. -/
theorem Skips.string (readable : Readable file) (split : file.content = front ++ text)
    (opened : OpenAt file front state) {rest : Option (List UInt8)} {result : FileState × Bool}
    (skips : Skips front text state rest result) (flags mask : UInt8) :
    Skips front text state (rest.bind (skipString flags mask))
      (if result.2 || flags &&& mask = 0 then result else runBadField file result.1 (-1)) := by
  cases skips with
  | done field rest whole =>
      rw [Option.bind_some, skipString]
      by_cases absent : flags &&& mask = 0
      · rw [if_pos absent]
        simpa [absent] using Skips.done field rest whole
      · rw [if_neg absent]
        have after : file.content = front ++ field ++ rest := by
          rw [split, whole, List.append_assoc]
        have later := skips_string readable after (opened.moved field)
        rw [whole]
        simpa [absent] using later.behind
  | bad after clear =>
      simpa using Skips.bad after clear

/-- All the fields. -/
theorem skips_header (readable : Readable file) (split : file.content = front ++ text)
    (opened : OpenAt file front state) (flags : UInt8) :
    Skips front text state (fieldsEnd flags text) (badHeader file state flags) := by
  have extra := skips_extra readable split opened flags
  have name := extra.string readable split opened flags 0x08
  exact name.string readable split opened flags 0x10

end Reads

/-! ## The test -/

section Test

variable {file : OpenFile} {state : FileState}

/-- The first ten bytes decide what the first bytes of the file do. -/
theorem start_of_take {content : List UInt8} (long : 10 ≤ content.length) :
    isGzip (content.take 10) = isGzip content ∧
      (content.take 10).getD 2 0 = content.getD 2 0 ∧
      (content.take 10).getD 3 0 = content.getD 3 0 := by
  match content with
  | _ :: _ :: _ :: _ :: _ => exact ⟨rfl, rfl, rfl⟩
  | [] | [_] | [_, _] | [_, _, _] => simp at long

/-- The first ten bytes of a file that has them. -/
theorem readRaw_start (readable : Readable file) (opened : OpenAt file [] state)
    (long : 10 ≤ file.content.length) :
    readRaw file state 10 =
      { stored := file.content.take 10
        returned := 10
        state := state.behind (file.content.take 10) } := by
  have whole : file.content = [] ++ file.content.take 10 ++ file.content.drop 10 := by
    rw [List.nil_append, List.take_append_drop]
  have ten : (file.content.take 10).length = 10 := List.length_take_of_le long
  have read := readRaw_part readable whole opened
  rwa [ten] at read

/-- A file that is no gzip file is taken as a plain one. -/
theorem gunzipTestHeader_plain (readable : Readable file) (opened : OpenAt file [] state)
    (plain : file.content.length < 10 ∨ isGzip file.content = false) :
    ∃ front, gunzipTestHeader false file state = ({ state.behind front with filepos := 0 }, true) := by
  have clear : decide (state.errnum = .none) = true := by rw [opened.errnum]; rfl
  rw [gunzipTestHeader, if_neg (by decide)]
  by_cases short : file.content.length < 10
  · have read := readRaw_short readable (List.nil_append _).symm opened short
    rw [Nat.cast_ofNat] at read
    refine ⟨[] ++ file.content, ?_⟩
    rw [read]
    dsimp only
    rw [if_pos (Or.inl (by omega))]
    exact congrArg (Prod.mk _) clear
  · have long : 10 ≤ file.content.length := by omega
    have none_ : isGzip file.content = false := plain.resolve_left short
    refine ⟨file.content.take 10, ?_⟩
    rw [readRaw_start readable opened long]
    dsimp only
    rw [if_pos (Or.inr (by rw [(start_of_take long).1, none_]; rfl))]
    exact congrArg (Prod.mk _) clear

/-- A corrupt header is an error, where there was none. -/
theorem corrupt_clear {state : FileState} (clear : state.errnum = .none) :
    (corrupt state).2 = false ∧ (corrupt state).1.errnum = .badGzipHeader :=
  ⟨rfl, if_pos clear⟩

/-- A gzip file with an incomplete header is corrupt. -/
theorem gunzipTestHeader_corrupt (readable : Readable file) (opened : OpenAt file [] state)
    (long : 10 ≤ file.content.length) (magic : isGzip file.content = true)
    (incomplete : headerEnd file.content = none) :
    (gunzipTestHeader false file state).2 = false ∧
      (gunzipTestHeader false file state).1.errnum = .badGzipHeader := by
  obtain ⟨sameMagic, sameMethod, sameFlags⟩ := start_of_take long
  have begun := opened.moved (file.content.take 10)
  rw [List.nil_append] at begun
  rw [gunzipTestHeader, if_neg (by decide), readRaw_start readable opened long]
  dsimp only
  rw [sameMagic, magic, sameMethod, sameFlags, if_neg (by simp)]
  by_cases supported : file.content.getD 2 0 = 8 ∧ file.content.getD 3 0 &&& 0xE2 = 0
  · rw [if_neg (by simpa using supported)]
    rw [headerEnd, if_pos supported] at incomplete
    have skips := skips_header readable (List.take_append_drop 10 _).symm begun
      (file.content.getD 3 0)
    rw [incomplete] at skips
    generalize badHeader file _ _ = header at skips ⊢
    cases skips with
    | bad after clear => exact corrupt_clear clear
  · rw [if_pos (by tauto)]
    exact corrupt_clear begun.errnum

/-- The last eight bytes of a file that has them. -/
theorem readRaw_trailer (readable : Readable file) {front : List UInt8}
    (opened : OpenAt file front state) (long : 8 ≤ file.content.length) :
    readRaw file state.toTrailer 8 =
      { stored := file.content.drop (file.content.length - 8)
        returned := 8
        state := state.toTrailer.behind (file.content.take (file.content.length - 8) ++
          file.content.drop (file.content.length - 8)) } := by
  have whole : file.content = file.content.take (file.content.length - 8) ++
      file.content.drop (file.content.length - 8) ++ [] := by
    rw [List.append_nil, List.take_append_drop]
  have eight : (file.content.drop (file.content.length - 8)).length = 8 := by
    rw [List.length_drop]
    omega
  have place : state.filemax - 8 = (file.content.take (file.content.length - 8)).length := by
    rw [opened.filemax, OpenFile.filemax, List.length_take_of_le (Nat.sub_le _ _)]
    omega
  have atTrailer : OpenAt file (file.content.take (file.content.length - 8)) state.toTrailer :=
    ⟨opened.filemax, opened.fsmax, place, opened.errnum⟩
  have read := readRaw_part readable whole atTrailer
  rwa [eight] at read

/-- A gzip file with a complete header is opened behind it, with the size its trailer says. -/
theorem gunzipTestHeader_complete (readable : Readable file) (opened : OpenAt file [] state)
    (long : 10 ≤ file.content.length) (magic : isGzip file.content = true)
    {rest : List UInt8} (complete : headerEnd file.content = some rest) :
    (gunzipTestHeader false file state).2 = true ∧
      (gunzipTestHeader false file state).1.compressedFile = true ∧
      (gunzipTestHeader false file state).1.gzipDataOffset =
        file.content.length - rest.length ∧
      (gunzipTestHeader false file state).1.filemax =
        toInt32 (wordAt file.content (file.content.length - 4)) := by
  obtain ⟨sameMagic, sameMethod, sameFlags⟩ := start_of_take long
  have begun := opened.moved (file.content.take 10)
  rw [List.nil_append] at begun
  by_cases supported : file.content.getD 2 0 = 8 ∧ file.content.getD 3 0 &&& 0xE2 = 0
  · rw [headerEnd, if_pos supported] at complete
    rw [gunzipTestHeader, if_neg (by decide), readRaw_start readable opened long]
    dsimp only
    rw [sameMagic, magic, sameMethod, sameFlags, if_neg (by simp),
      if_neg (by simpa using supported)]
    have skips := skips_header readable (List.take_append_drop 10 _).symm begun
      (file.content.getD 3 0)
    rw [complete] at skips
    generalize badHeader file _ _ = header at skips ⊢
    obtain ⟨field, rest, split⟩ := skips
    have moved := begun.moved field
    dsimp only
    rw [readRaw_trailer readable moved (by omega), if_neg (by decide)]
    have data : ((file.content.take 10 ++ field).length : Int) =
        file.content.length - rest.length := by
      have size := congrArg List.length split
      rw [List.length_drop, List.length_append] at size
      rw [List.length_append, List.length_take_of_le long]
      omega
    have size : wordAt (file.content.drop (file.content.length - 8)) 4 =
        wordAt file.content (file.content.length - 4) := by
      rw [wordAt_drop]
      congr 1
      omega
    refine ⟨rfl, rfl, data, ?_⟩
    rw [← size]
    rfl
  · rw [headerEnd, if_neg supported] at complete
    exact absurd complete (by simp)

/-- Every file is recognised for what it is, unless decompression is off. Its size is that of
the word at its end as an `int`. -/
theorem recognisesHeader {noDecompression : Bool} (readable : Readable file)
    (opened : OpenAt file [] state) (plain : state.compressedFile = false) :
    (noDecompression = true →
      (gunzipTestHeader noDecompression file state).2 = true ∧
        (gunzipTestHeader noDecompression file state).1.compressedFile = false ∧
        (gunzipTestHeader noDecompression file state).1.filepos = 0) ∧
    (noDecompression = false →
      RecognisesHeader (fun word => toInt32 word) file
        (gunzipTestHeader noDecompression file state)) := by
  constructor
  · rintro rfl
    rw [gunzipTestHeader, if_pos rfl, uncompressed, opened.errnum]
    exact ⟨rfl, plain, rfl⟩
  · rintro rfl
    by_cases isPlain : file.content.length < 10 ∨ isGzip file.content = false
    · obtain ⟨front, result⟩ := gunzipTestHeader_plain readable opened isPlain
      have none_ {p : Prop} (long : 10 ≤ file.content.length) (magic : isGzip file.content = true) :
          p := by
        rcases isPlain with short | other
        · omega
        · exact absurd (magic.symm.trans other) (by decide)
      rw [result]
      exact ⟨iff_of_true ⟨rfl, plain, rfl⟩ isPlain, fun long magic => none_ long magic,
        fun long magic => none_ long magic, fun long magic => none_ long magic⟩
    · rw [not_or, not_lt, Bool.not_eq_false] at isPlain
      obtain ⟨long, magic⟩ := isPlain
      have notPlain : ¬ (file.content.length < 10 ∨ isGzip file.content = false) := by
        rw [magic]
        simp [long]
      cases header : headerEnd file.content with
      | none =>
          obtain ⟨refused, errnum⟩ := gunzipTestHeader_corrupt readable opened long magic header
          refine ⟨iff_of_false (fun done => ?_) notPlain, fun _ _ => ?_, fun _ _ rest some_ => ?_,
            fun _ _ _ => ⟨refused, errnum⟩⟩
          · exact absurd (refused.symm.trans done.1) (by decide)
          · rw [refused, header]
            simp
          · exact absurd (header.symm.trans some_) (by simp)
      | some rest =>
          obtain ⟨accepted, compressed, data, size⟩ :=
            gunzipTestHeader_complete readable opened long magic header
          refine ⟨iff_of_false (fun done => ?_) notPlain, fun _ _ => ?_, fun _ _ rest' some_ => ?_,
            fun _ _ none_ => ?_⟩
          · exact absurd (compressed.symm.trans done.2.1) (by decide)
          · rw [header]
            exact iff_of_true ⟨accepted, compressed⟩ rfl
          · obtain rfl := Option.some.inj (header.symm.trans some_)
            exact ⟨data, size⟩
          · exact absurd (header.symm.trans none_) (by simp)

end Test

/-- A header with an extra field, a name and a comment, a stored block without data, and a
trailer with the largest size. -/
def hugeGzip : OpenFile :=
  plainFile ([0x1F, 0x8B, 8, 0x1C, 0, 0, 0, 0, 0, 3] ++ [2, 0, 0xAA, 0xBB] ++ [0x61, 0] ++
    [0x62, 0x63, 0] ++ [1, 0, 0, 0xFF, 0xFF] ++ [0, 0, 0, 0, 0xFF, 0xFF, 0xFF, 0xFF]) (by decide)

/-- The variables when `grub_open` has opened it. -/
def hugeGzipOpened : FileState where
  filepos := 0
  filemax := hugeGzip.filemax
  fsmax := hugeGzip.fsmax
  compressedFile := false
  gzipDataOffset := 0
  gzipFilepos := 0
  gzipFilemax := 0
  gzipFsmax := 0
  savedFilepos := 0
  gzipCrc := 0
  slide := []
  calls := 0
  errnum := .none

/-- The file can be read, -/
theorem readable_hugeGzip : Readable hugeGzip := ⟨by decide, fun _ _ => rfl⟩

/-- and is open at its start, -/
theorem openAt_hugeGzip : OpenAt hugeGzip [] hugeGzipOpened := ⟨rfl, rfl, rfl, rfl⟩

/-- so its header is recognised, with a size above 2^31. -/
theorem recognisesHeader_hugeGzip :
    RecognisesHeader (fun word => toInt32 word) hugeGzip
      (gunzipTestHeader false hugeGzip hugeGzipOpened) :=
  (recognisesHeader readable_hugeGzip openAt_hugeGzip rfl).2 rfl

/-- With decompression off, a gzip file is taken as it is; and a size of 4 GiB is negative. -/
theorem hugeGzip_other :
    (¬ ∀ file state, Readable file → OpenAt file [] state → state.compressedFile = false →
      RecognisesHeader (fun word => word) file (gunzipTestHeader true file state)) ∧
    ¬ ∀ file state, Readable file → OpenAt file [] state → state.compressedFile = false →
      RecognisesHeader (fun word => word) file (gunzipTestHeader false file state) := by
  constructor
  · intro claimed
    have recognises := claimed _ _ readable_hugeGzip openAt_hugeGzip rfl
    exact absurd (recognises.plain.mp ⟨rfl, rfl, rfl⟩) (by decide)
  · intro claimed
    have recognises := claimed _ _ readable_hugeGzip openAt_hugeGzip rfl
    have long : 10 ≤ hugeGzip.content.length := by decide
    have magic : isGzip hugeGzip.content = true := by decide
    obtain ⟨rest, header⟩ : ∃ rest, headerEnd hugeGzip.content = some rest := ⟨_, rfl⟩
    have size := (recognises.data long magic rest header).2
    rw [(gunzipTestHeader_complete readable_hugeGzip openAt_hugeGzip long magic header).2.2.2] at size
    exact absurd size (by decide)

end GrubLegacy.Gunzip
