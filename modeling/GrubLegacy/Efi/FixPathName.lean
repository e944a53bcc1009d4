import GrubLegacy.Base.ByteArea
import GrubLegacy.Base.Machines
import GrubLegacy.Efi.UtfConversion

/-!
# Path names from device paths

`fix_path_name` of `efimisc.c` rewrites a path in place, with a pointer that writes and one
that reads. A separator is written where the reading pointer has not moved on yet: as long as
nothing was removed this is where it reads next.
-/

namespace GrubLegacy.Efi

open Base CStrings

def slash : UInt8 := charOf '/'

def backslash : UInt8 := charOf '\\'

def dot : UInt8 := charOf '.'

/-! ## Rewriting in place -/

/-- The memory from `path_name` on, the two pointers, and the places that were read or
written. -/
structure FixState where
  area : Area
  p1 : Nat
  p2 : Nat
  touched : List Nat

/-- `*++p1 = c`, with the reading pointer behind it moved by so much. -/
def FixState.write (state : FixState) (c : UInt8) (moved : Nat) : FixState :=
  { area := setByte state.area (state.p1 + 1) c
    p1 := state.p1 + 1
    p2 := state.p2 + moved
    touched := (state.p1 + 1) :: state.touched }

def FixState.skip (state : FixState) (moved : Nat) : FixState :=
  { state with p2 := state.p2 + moved }

def FixState.look (state : FixState) (place : Nat) : FixState :=
  { state with touched := place :: state.touched }

/-- The case of a dot looks at the character behind it where a component may begin. -/
def fixDot (state : FixState) : FixState :=
  if state.area state.p1 = slash then
    if state.area (state.p2 + 1) = backslash then (state.look (state.p2 + 1)).skip 2
    else (state.look (state.p2 + 1)).write (state.area state.p2) 1
  else state.write (state.area state.p2) 1

/-- The switch in the loop of `fix_path_name`. -/
def fixChar (state : FixState) : FixState :=
  if state.area state.p2 = 0 then state.write (state.area state.p2) 0
  else if state.area state.p2 = dot then fixDot state
  else if state.area state.p2 = backslash then
    if state.area state.p1 = slash then state.skip 1 else state.write slash 0
  else state.write (state.area state.p2) 1

/-- One turn of the loop. -/
def fixStep (state : FixState) : Step FixState FixState :=
  if state.area state.p1 = 0 then .done (state.look state.p1)
  else .next (fixChar ((state.look state.p1).look state.p2))

/-- `fix_path_name` before its loop. -/
def fixStart (area : Area) : FixState :=
  { area := if area 0 = backslash then setByte area 0 slash else area
    p1 := 0
    p2 := 1
    touched := [0] }

/-! ## Paths of devices -/

/-- A node of a device path: whether it is a file path of the media, and its name. -/
structure DevicePathNode where
  filePath : Bool
  pathName : List UInt16

/-- The string that `grub_efi_file_path_to_path_name` makes of the nodes up to the end of the
path: a name comes behind a backslash, whatever it starts with. -/
def grubEfiFilePathToPathName (nodes : List DevicePathNode) : List UInt8 :=
  nodes.flatMap fun node =>
    if node.filePath then backslash :: readString (grubUtf16ToUtf8 0 node.pathName) else []

/-! ## What a clean path is -/

def IsSeparator (c : UInt8) : Prop := c = slash ∨ c = backslash

instance (c : UInt8) : Decidable (IsSeparator c) := inferInstanceAs (Decidable (_ ∨ _))

/-- A component ends in front of these characters. -/
def EndsComponent (rest : List UInt8) : Prop := ∀ c ∈ rest.head?, IsSeparator c

instance (rest : List UInt8) : Decidable (EndsComponent rest) :=
  inferInstanceAs (Decidable (∀ c ∈ rest.head?, IsSeparator c))

/-- Where in a path one is: at its beginning, behind a separator, or inside of a component. -/
inductive PathPlace where
  | first
  | opened
  | inside
deriving DecidableEq, Repr

/-- A path with slashes between its components, one for any number of separators, and without
components that are a single dot. -/
def cleanPath : PathPlace → List UInt8 → List UInt8
  | _, [] => []
  | place, c :: rest =>
    if IsSeparator c then
      if place = .opened then cleanPath .opened rest else slash :: cleanPath .opened rest
    else if c = dot ∧ place ≠ .inside ∧ EndsComponent rest then cleanPath .opened rest
    else c :: cleanPath .inside rest

/-- A run that returns, touches the buffer of a path only, and leaves a text there. -/
def FixesTo (size : Nat) (area : Area) (text : List UInt8) (result : FixState) : Prop :=
  Returns fixStep (fixStart area) result ∧ (∀ place ∈ result.touched, place ≤ size) ∧
    Holds result.area 0 text

/-- A path is cleaned in its buffer, and a second time nothing changes. -/
def Cleans (path : List UInt8) (area : Area) : Prop :=
  ∃ result, FixesTo path.length area (cleanPath .first path) result ∧
    ∃ again, FixesTo path.length result.area (cleanPath .first path) again ∧
      again.area = result.area

/-- The path that ends in front of a backslash ends with a separator, or with a single dot
behind one. -/
def OpensThere (front : List UInt8) : Prop :=
  ∃ sep, IsSeparator sep ∧ ([sep] <:+ front ∨ [sep, dot] <:+ front)

/-- What a path has to be like: in front of the first backslash behind its first character is
something to be removed, no slash comes behind a separator, and single dots are between a
separator and a backslash. -/
structure Fixable (path : List UInt8) : Prop where
  opens : ∀ c front rest, path = c :: (front ++ backslash :: rest) → backslash ∉ front →
    OpensThere (c :: front)
  starts : path ≠ [dot] ∧ ∀ sep, IsSeparator sep → ¬ [dot, sep] <+: path
  slashes : ∀ sep, IsSeparator sep → ¬ [sep, slash] <:+: path
  dots : ∀ sep, IsSeparator sep → ¬ [sep, dot, slash] <:+: path ∧ ¬ [sep, dot] <:+ path

/-! ## The text that is written -/

/-- What the loop writes behind a character, if it comes to an end. -/
def fixedText : (last : UInt8) → List UInt8 → List UInt8
  | _, [] => []
  | last, c :: rest =>
    if c = dot ∧ last = slash ∧ rest.head? = some backslash then fixedText last rest
    else if c = backslash then
      if last = slash then fixedText last rest else slash :: fixedText slash rest
    else c :: fixedText c rest

/-- Something is removed before a separator is written. -/
def RunsOut : (last : UInt8) → List UInt8 → Prop
  | _, [] => True
  | last, c :: rest =>
    if c = dot ∧ last = slash ∧ rest.head? = some backslash then True
    else if c = backslash then last = slash
    else RunsOut c rest

/-- The character that is written for the first one. -/
def firstWritten (c : UInt8) : UInt8 := if c = backslash then slash else c

/-- A separator is what is written as a slash. -/
theorem isSeparator_iff {c : UInt8} : IsSeparator c ↔ firstWritten c = slash := by
  rw [IsSeparator, firstWritten]
  split
  next isBackslash => simp [isBackslash]
  next other => simp [other]

/-- The pointers meet behind a slash. -/
def Copies (state : FixState) : Prop := state.p2 = state.p1 ∧ state.area state.p1 = slash

/-- Then there is always one more slash to be copied. -/
theorem copies (state : FixState) (meet : Copies state) :
    ∃ state', fixStep state = .next state' ∧ Copies state' := by
  obtain ⟨together, isSlash⟩ := meet
  have goesOn : fixChar ((state.look state.p1).look state.p2) =
      ((state.look state.p1).look state.p2).write slash 1 := by
    have next : ((state.look state.p1).look state.p2).area
        ((state.look state.p1).look state.p2).p2 = slash := together ▸ isSlash
    rw [fixChar, next]
    simp [slash, dot, backslash, charOf]
  refine ⟨_, if_neg ?_, ?_⟩
  · rw [isSlash]
    decide
  · rw [goesOn]
    exact ⟨congrArg (· + 1) together, setByte_same⟩

/-! ## Runs that come to an end -/

/-- A text is written up to the first pointer, and the second one is where the rest is. -/
structure Fixing (size : Nat) (state : FixState) (text : List UInt8) (last : UInt8)
    (rest : List UInt8) : Prop where
  stored : ∀ i < text.length, state.area i = areaOf text i
  length : text.length = state.p1 + 1
  written : state.area state.p1 = last
  free : NulFree text
  ahead : state.p1 < state.p2
  read : Holds state.area state.p2 rest
  ends : state.p2 + rest.length = size
  touched : ∀ place ∈ state.touched, place ≤ size

section

variable {size : Nat} {state : FixState} {text rest : List UInt8} {last c : UInt8}

namespace Fixing

/-- What was written last is in the text, -/
theorem last_mem (fixing : Fixing size state text last rest) : last ∈ text := by
  have inside : state.p1 < text.length := by
    have := fixing.length
    omega
  have byte := fixing.stored _ inside
  rw [fixing.written, areaOf_lt inside] at byte
  rw [byte]
  exact List.get_mem _ _

/-- so it is no NUL. -/
theorem last_ne_zero (fixing : Fixing size state text last rest) : last ≠ 0 :=
  fixing.free last fixing.last_mem

/-- A look at a byte of the array changes nothing of this. -/
theorem look (fixing : Fixing size state text last rest) {place : Nat} (inside : place ≤ size) :
    Fixing size (state.look place) text last rest :=
  { fixing with touched := List.forall_mem_cons.mpr ⟨inside, fixing.touched⟩ }

/-- Characters are passed over. -/
theorem skip (fixing : Fixing size state text last rest) {moved : Nat}
    (inside : moved ≤ rest.length) :
    Fixing size (state.skip moved) text last (rest.drop moved) where
  stored := fixing.stored
  length := fixing.length
  written := fixing.written
  free := fixing.free
  ahead := Nat.lt_of_lt_of_le fixing.ahead (Nat.le_add_right _ _)
  read := holds_drop fixing.read inside
  ends := by
    have := fixing.ends
    rw [List.length_drop]
    change state.p2 + moved + (rest.length - moved) = size
    omega
  touched := fixing.touched

/-- A character is written where nothing more is read. -/
theorem write (fixing : Fixing size state text last rest) (text_ : c ≠ 0) {moved : Nat}
    (inside : moved ≤ rest.length) (room : state.p1 + 1 < state.p2 + moved) :
    Fixing size (state.write c moved) (text ++ [c]) c (rest.drop moved) where
  stored i small := by
    have length := fixing.length
    rw [List.length_append, List.length_singleton] at small
    change setByte state.area (state.p1 + 1) c i = _
    rcases Nat.lt_or_ge i text.length with before | here
    · rw [setByte_other (by omega), fixing.stored i before, areaOf_append, if_pos before]
    · obtain rfl : i = state.p1 + 1 := by omega
      rw [setByte_same, areaOf_append, if_neg (by omega), length, Nat.sub_self]
      rfl
  length := by
    rw [List.length_append, List.length_singleton, fixing.length]
    rfl
  written := setByte_same
  free := by
    rintro other member
    rcases List.mem_append.mp member with earlier | isLast
    · exact fixing.free other earlier
    · rw [List.mem_singleton.mp isLast]
      exact text_
  ahead := room
  read := (holds_drop fixing.read inside).congr fun i _ => by
    change setByte state.area (state.p1 + 1) c (state.p2 + moved + i) = _
    exact setByte_other (by omega)
  ends := by
    have := fixing.ends
    rw [List.length_drop]
    change state.p2 + moved + (rest.length - moved) = size
    omega
  touched := by
    have first := fixing.ahead
    have ends := fixing.ends
    exact List.forall_mem_cons.mpr ⟨by omega, fixing.touched⟩

/-- The next character is read where the second pointer is. -/
theorem next (fixing : Fixing size state text last (c :: rest)) : state.area state.p2 = c :=
  fixing.read.bytes 0 (Nat.zero_le _)

/-- The next character is no NUL. -/
theorem next_ne_zero (fixing : Fixing size state text last (c :: rest)) : c ≠ 0 :=
  fixing.read.free c List.mem_cons_self

/-- So is the one behind it. -/
theorem second_iff (fixing : Fixing size state text last (c :: rest)) :
    state.area (state.p2 + 1) = backslash ↔ rest.head? = some backslash := by
  rw [fixing.read.bytes 1 (by simp)]
  cases rest with
  | nil =>
      have nul : areaOf [c] 1 = 0 := areaOf_ge (Nat.le_refl _)
      rw [nul]
      decide
  | cons other rest => exact ⟨congrArg some, Option.some.inj⟩

/-- A turn looks at both pointers. -/
theorem turn (fixing : Fixing size state text last rest) :
    ∃ looked, fixStep state = .next (fixChar looked) ∧ looked.area = state.area ∧
      looked.p1 = state.p1 ∧ looked.p2 = state.p2 ∧ Fixing size looked text last rest := by
  have ahead := fixing.ahead
  have ends := fixing.ends
  have written : state.area state.p1 ≠ 0 := by
    rw [fixing.written]
    exact fixing.last_ne_zero
  exact ⟨_, if_neg written, rfl, rfl, rfl, (fixing.look (by omega)).look (by omega)⟩

/-- The turn at the end of the path is the last one that writes. -/
theorem last_turn (fixing : Fixing size state text last []) :
    ∃ looked, Fixing size looked text last [] ∧ looked.p1 = state.p1 ∧ looked.p2 = state.p2 ∧
      looked.area = state.area ∧ looked.area looked.p2 = 0 ∧
      fixStep state = .next (looked.write 0 0) ∧
      fixStep (looked.write 0 0) = .done ((looked.write 0 0).look (looked.p1 + 1)) := by
  obtain ⟨looked, goesOn, sameArea, p1, p2, fixing⟩ := fixing.turn
  have nul : looked.area looked.p2 = 0 := fixing.read.bytes 0 (Nat.zero_le _)
  have last_ : fixChar looked = looked.write 0 0 := by
    rw [fixChar, if_pos nul, nul]
  exact ⟨looked, fixing, p1, p2, sameArea, nul, last_ ▸ goesOn, if_pos setByte_same⟩

/-- At the end of the path the text is ended. -/
theorem finish (fixing : Fixing size state text last []) :
    ∃ result, Returns fixStep state result ∧ (∀ place ∈ result.touched, place ≤ size) ∧
      Holds result.area 0 text := by
  obtain ⟨looked, fixing, -, -, -, -, goesOn, ended⟩ := fixing.last_turn
  refine ⟨_, .next goesOn (.done ended), ?_, ?_⟩
  · have ahead := fixing.ahead
    have ends := fixing.ends
    have bound : looked.p1 + 1 ≤ size := by
      rw [List.length_nil] at ends
      omega
    exact List.forall_mem_cons.mpr ⟨bound, List.forall_mem_cons.mpr ⟨bound, fixing.touched⟩⟩
  · refine ⟨fun i small => ?_, fixing.free⟩
    have length := fixing.length
    rw [Nat.zero_add]
    change setByte looked.area (looked.p1 + 1) 0 i = _
    rcases Nat.lt_or_ge i text.length with before | here
    · rw [setByte_other (by omega), fixing.stored i before]
    · rw [show i = looked.p1 + 1 by omega, setByte_same, areaOf_ge (by omega)]

/-- What a turn makes of the next character. -/
theorem fixChar_eq (fixing : Fixing size state text last (c :: rest)) :
    ∃ looked, Fixing size looked text last (c :: rest) ∧ looked.p1 = state.p1 ∧
      looked.p2 = state.p2 ∧ looked.area = state.area ∧
      fixChar state =
        if c = dot ∧ last = slash ∧ rest.head? = some backslash then looked.skip 2
        else if c = backslash then if last = slash then looked.skip 1 else looked.write slash 0
        else looked.write c 1 := by
  have next := fixing.next
  have notNul := fixing.next_ne_zero
  have written := fixing.written
  have inside : state.p2 + 1 ≤ size := by
    have ends := fixing.ends
    rw [List.length_cons] at ends
    omega
  by_cases isDot : c = dot
  · have other : c ≠ backslash := by
      rw [isDot]
      decide
    by_cases opened : last = slash
    · refine ⟨state.look (state.p2 + 1), fixing.look inside, rfl, rfl, rfl, ?_⟩
      rw [fixChar, next, if_neg notNul, if_pos isDot, fixDot, written, if_pos opened, next]
      by_cases second : rest.head? = some backslash
      · rw [if_pos (fixing.second_iff.mpr second), if_pos ⟨isDot, opened, second⟩]
      · rw [if_neg (mt fixing.second_iff.mp second), if_neg fun all => second all.2.2, if_neg other]
    · refine ⟨state, fixing, rfl, rfl, rfl, ?_⟩
      rw [fixChar, next, if_neg notNul, if_pos isDot, fixDot, written, if_neg opened, next,
        if_neg fun all => opened all.2.1, if_neg other]
  · refine ⟨state, fixing, rfl, rfl, rfl, ?_⟩
    have notDot : ¬ (c = dot ∧ last = slash ∧ rest.head? = some backslash) := fun all => isDot all.1
    rw [fixChar, next, if_neg notNul, if_neg isDot, written, if_neg notDot]

/-- A turn of the loop with something ahead. -/
theorem turn_eq (fixing : Fixing size state text last (c :: rest)) :
    ∃ looked, Fixing size looked text last (c :: rest) ∧ looked.p1 = state.p1 ∧
      looked.p2 = state.p2 ∧ looked.area = state.area ∧ fixStep state = .next
        (if c = dot ∧ last = slash ∧ rest.head? = some backslash then looked.skip 2
        else if c = backslash then if last = slash then looked.skip 1 else looked.write slash 0
        else looked.write c 1) := by
  obtain ⟨looked, goesOn, sameArea, p1, p2, fixing⟩ := fixing.turn
  obtain ⟨looked', fixing, p1', p2', sameArea', isChar⟩ := fixing.fixChar_eq
  exact ⟨looked', fixing, p1'.trans p1, p2'.trans p2, sameArea'.trans sameArea, isChar ▸ goesOn⟩

/-- A separator is passed over where one is written already, and then something is removed. -/
theorem passes (fixing : Fixing size state text slash (backslash :: rest)) :
    ∃ state', fixStep state = .next state' ∧ Fixing size state' text slash rest ∧
      state'.p1 + 1 < state'.p2 := by
  obtain ⟨looked, fixing, -, -, -, goesOn⟩ := fixing.turn_eq
  rw [if_neg (by simp [dot, backslash, charOf]), if_pos rfl, if_pos rfl] at goesOn
  refine ⟨_, goesOn, @skip _ _ _ _ _ fixing 1 (by simp), ?_⟩
  have ahead := fixing.ahead
  change looked.p1 + 1 < looked.p2 + 1
  omega

/-- A run comes to an end where something has been removed, or is removed before a separator is
written. -/
theorem returns (fixing : Fixing size state text last rest)
    (gap : state.p1 + 1 < state.p2 ∨ RunsOut last rest) :
    ∃ result, Returns fixStep state result ∧ (∀ place ∈ result.touched, place ≤ size) ∧
      Holds result.area 0 (text ++ fixedText last rest) := by
  induction isLength : rest.length using Nat.strong_induction_on generalizing state text last rest with
  | _ count inductionHypothesis =>
    cases rest with
    | nil =>
        rw [fixedText, List.append_nil]
        exact fixing.finish
    | cons c rest =>
        have notNul := fixing.next_ne_zero
        obtain ⟨looked, fixing, p1, p2, -, goesOn⟩ := fixing.turn_eq
        rw [← p1, ← p2] at gap
        have ahead := fixing.ahead
        rw [List.length_cons] at isLength
        rw [fixedText]
        by_cases removed : c = dot ∧ last = slash ∧ rest.head? = some backslash
        · rw [if_pos removed] at goesOn ⊢
          obtain ⟨rfl, rfl, second⟩ := removed
          obtain ⟨rest, rfl⟩ := List.head?_eq_some_iff.mp second
          have skipped := @skip _ _ _ _ _ fixing 2 (by simp)
          obtain ⟨result, later, inside, holds⟩ := inductionHypothesis rest.length
            (by rw [← isLength, List.length_cons]; omega) skipped
            (.inl (by change looked.p1 + 1 < looked.p2 + 2; omega)) rfl
          refine ⟨result, .next goesOn later, inside, ?_⟩
          rw [fixedText, if_neg (by simp [dot, backslash, charOf]), if_pos rfl, if_pos rfl]
          exact holds
        · rw [if_neg removed] at goesOn ⊢
          by_cases separator : c = backslash
          · rw [if_pos separator] at goesOn ⊢
            subst separator
            by_cases opened : last = slash
            · rw [if_pos opened] at goesOn ⊢
              obtain ⟨result, later, inside, holds⟩ := inductionHypothesis rest.length (by omega)
                (@skip _ _ _ _ _ fixing 1 (by simp))
                (.inl (by change looked.p1 + 1 < looked.p2 + 1; omega)) rfl
              exact ⟨result, .next goesOn later, inside, holds⟩
            · rw [if_neg opened] at goesOn ⊢
              -- Nothing is removed here, so that there has to be room already.
              have room : looked.p1 + 1 < looked.p2 := gap.resolve_right fun runsOut => by
                rw [RunsOut, if_neg removed, if_pos rfl] at runsOut
                exact opened runsOut
              have written := @write _ _ _ _ _ slash fixing (by decide) 0 (Nat.zero_le _) room
              obtain ⟨state', goesOn', passed, gap'⟩ := written.passes
              obtain ⟨result, later, inside, holds⟩ :=
                inductionHypothesis rest.length (by omega) passed (.inl gap') rfl
              refine ⟨result, .next goesOn (.next goesOn' later), inside, ?_⟩
              rw [List.append_assoc] at holds
              exact holds
          · rw [if_neg separator] at goesOn ⊢
            have copied := @write _ _ _ _ _ c fixing notNul 1 (by simp) (by omega)
            have gap' : looked.p1 + 1 < looked.p2 ∨ RunsOut c rest := gap.imp_right fun runsOut => by
              rw [RunsOut, if_neg removed, if_neg separator] at runsOut
              exact runsOut
            obtain ⟨result, later, inside, holds⟩ :=
              inductionHypothesis rest.length (by omega) copied
                (gap'.imp_left fun ahead => by
                  change looked.p1 + 1 + 1 < looked.p2 + 1
                  omega) rfl
            refine ⟨result, .next goesOn later, inside, ?_⟩
            rw [List.append_assoc] at holds
            exact holds

/-- A separator that is written over the next character is copied for ever. -/
theorem runs_away (fixing : Fixing size state text last rest) (tight : state.p2 = state.p1 + 1)
    (notOut : ¬ RunsOut last rest) (result : FixState) : ¬ Returns fixStep state result := by
  induction rest generalizing state text last with
  | nil => exact absurd trivial notOut
  | cons c rest inductionHypothesis =>
      have notNul := fixing.next_ne_zero
      obtain ⟨looked, fixing, p1, p2, -, goesOn⟩ := fixing.turn_eq
      intro returns
      have later := returns.of_next goesOn
      rw [RunsOut] at notOut
      have kept : ¬ (c = dot ∧ last = slash ∧ rest.head? = some backslash) := fun removed =>
        notOut (by rw [if_pos removed]; trivial)
      rw [if_neg kept] at later notOut
      by_cases separator : c = backslash
      · rw [if_pos separator] at later notOut
        rw [if_neg notOut] at later
        exact not_returns copies ⟨by change looked.p2 = looked.p1 + 1; omega, setByte_same⟩ _ later
      · rw [if_neg separator] at later notOut
        exact inductionHypothesis
          (@write _ _ _ _ _ c fixing notNul 1 (by simp) (by omega))
          (by change looked.p2 + 1 = looked.p1 + 1 + 1; omega) notOut later

/-- Where nothing is to be changed nothing is. -/
theorem unchanged (fixing : Fixing size state text last rest) (tight : state.p2 = state.p1 + 1)
    (clean : backslash ∉ rest) {result : FixState} (returns : Returns fixStep state result) :
    result.area = state.area := by
  induction rest generalizing state text last with
  | nil =>
      obtain ⟨looked, fixing, p1, p2, sameArea, nul, goesOn, ended⟩ := fixing.last_turn
      rw [(returns.of_next goesOn).of_done ended, ← sameArea]
      exact setByte_self (by rw [← nul, p1, p2, tight])
  | cons c rest inductionHypothesis =>
      have notNul := fixing.next_ne_zero
      obtain ⟨looked, fixing, p1, p2, sameArea, goesOn⟩ := fixing.turn_eq
      obtain ⟨other, clean⟩ := not_or.mp (mt List.mem_cons.mpr clean)
      have kept : ¬ (c = dot ∧ last = slash ∧ rest.head? = some backslash) := fun removed =>
        clean (List.mem_of_mem_head? removed.2.2)
      rw [if_neg kept, if_neg (Ne.symm other)] at goesOn
      have same : (looked.write c 1).area = looked.area :=
        setByte_self (by rw [← fixing.next, p1, p2, tight])
      rw [← sameArea, ← same]
      exact inductionHypothesis (@write _ _ _ _ _ c fixing notNul 1 (by simp) (by omega))
        (by change looked.p2 + 1 = looked.p1 + 1 + 1; omega) clean (returns.of_next goesOn)

end Fixing

/-- The loop begins behind the first character. -/
theorem fixing_fixStart {area : Area} (holds : Holds area 0 (c :: rest)) :
    Fixing (c :: rest).length (fixStart area) [firstWritten c] (firstWritten c) rest := by
  have first : area 0 = c := holds.bytes 0 (Nat.zero_le _)
  have written : (fixStart area).area 0 = firstWritten c := by
    change (if area 0 = backslash then setByte area 0 slash else area) 0 = _
    rw [first, firstWritten]
    split
    · exact setByte_same
    · exact first
  have behind : ∀ i, (fixStart area).area (1 + i) = area (1 + i) := by
    intro i
    change (if area 0 = backslash then setByte area 0 slash else area) (1 + i) = _
    split
    · exact setByte_other (by omega)
    · rfl
  exact
    { stored := by
        rintro i small
        obtain rfl : i = 0 := by simpa using small
        exact written
      length := rfl
      written := written
      free := by
        have notNul : c ≠ 0 := holds.free c List.mem_cons_self
        rintro other member
        rw [List.mem_singleton.mp member, firstWritten]
        split
        · decide
        · exact notNul
      ahead := Nat.zero_lt_one
      read := (holds_drop holds (Nat.succ_le_succ (Nat.zero_le _))).congr fun i _ => by
        rw [Nat.zero_add]
        exact behind i
      ends := by
        rw [List.length_cons, Nat.add_comm]
        rfl
      touched := by simp [fixStart] }

end

/-! ## Texts without backslashes -/

/-- What is written has no backslash, -/
theorem backslash_notMem_fixedText (last : UInt8) (rest : List UInt8) :
    backslash ∉ fixedText last rest := by
  fun_induction fixedText last rest with
  | case1 => exact List.not_mem_nil
  | case2 last c rest removed ih => exact ih
  | case3 rest kept ih => exact ih
  | case4 last rest kept other ih => exact List.not_mem_cons_of_ne_of_not_mem (by decide) ih
  | case5 last c rest kept other ih => exact List.not_mem_cons_of_ne_of_not_mem (Ne.symm other) ih

/-- and is no longer than what is read. -/
theorem length_fixedText_le (last : UInt8) (rest : List UInt8) :
    (fixedText last rest).length ≤ rest.length := by
  fun_induction fixedText last rest with simp <;> omega

/-- A clean text is written as it is. -/
theorem fixedText_of_clean {last : UInt8} {rest : List UInt8} (clean : backslash ∉ rest) :
    fixedText last rest = rest ∧ RunsOut last rest := by
  induction rest generalizing last with
  | nil => exact ⟨rfl, trivial⟩
  | cons c rest ih =>
      obtain ⟨other, clean⟩ := not_or.mp (mt List.mem_cons.mpr clean)
      have kept : ¬ (c = dot ∧ last = slash ∧ rest.head? = some backslash) := fun removed =>
        clean (List.mem_of_mem_head? removed.2.2)
      rw [fixedText, RunsOut, if_neg kept, if_neg kept, if_neg (Ne.symm other),
        if_neg (Ne.symm other), (@ih c clean).1]
      exact ⟨rfl, (ih clean).2⟩

/-! ## When a path is cleaned -/

/-- A run comes to an end if something is removed before a separator is written, and it leaves
the text that the loop writes. -/
theorem cleans_iff_text {area : Area} {c : UInt8} {rest : List UInt8}
    (holds : Holds area 0 (c :: rest)) :
    Cleans (c :: rest) area ↔ RunsOut (firstWritten c) rest ∧
      cleanPath .first (c :: rest) = firstWritten c :: fixedText (firstWritten c) rest := by
  have fixing := fixing_fixStart holds
  constructor
  · rintro ⟨result, ⟨returns, -, isClean⟩, -⟩
    have runsOut : RunsOut (firstWritten c) rest := by
      by_contra notOut
      exact fixing.runs_away rfl notOut result returns
    obtain ⟨result', returns', -, isFixed⟩ := fixing.returns (.inr runsOut)
    rw [← returns.unique returns'] at isFixed
    exact ⟨runsOut, holds_unique isClean isFixed⟩
  · rintro ⟨runsOut, isFixed⟩
    obtain ⟨result, returns, inside, holds'⟩ := fixing.returns (.inr runsOut)
    have noBackslash : backslash ∉ firstWritten c :: fixedText (firstWritten c) rest := by
      refine List.not_mem_cons_of_ne_of_not_mem ?_ (backslash_notMem_fixedText _ _)
      rw [firstWritten]
      split
      · decide
      next other => exact Ne.symm other
    obtain ⟨first, clean⟩ := not_or.mp (mt List.mem_cons.mpr noBackslash)
    rw [List.singleton_append] at holds'
    have again := fixing_fixStart holds'
    have kept : firstWritten (firstWritten c) = firstWritten c := if_neg (Ne.symm first)
    rw [kept] at again
    obtain ⟨same, runsOut'⟩ := @fixedText_of_clean (firstWritten c) _ clean
    obtain ⟨result', returns', inside', holds''⟩ := again.returns (.inr runsOut')
    have unchanged := again.unchanged rfl clean returns'
    rw [List.singleton_append, same] at holds''
    refine ⟨result, ⟨returns, inside, ?_⟩, result', ⟨returns', fun place touched => ?_, ?_⟩, ?_⟩
    · rw [isFixed]
      exact holds'
    · have := inside' place touched
      have := length_fixedText_le (firstWritten c) rest
      simp only [List.length_cons] at *
      omega
    · rw [isFixed]
      exact holds''
    · rw [unchanged]
      have written : result.area 0 = firstWritten c := holds'.bytes 0 (Nat.zero_le _)
      exact if_neg (written ▸ Ne.symm first)

/-! ## What the paths are like -/

/-- A component opens behind a separator, -/
theorem opensThere_singleton {c : UInt8} : OpensThere [c] ↔ IsSeparator c := by
  constructor
  · rintro ⟨sep, separator, tail | tail⟩
    · obtain rfl : sep = c := by simpa using tail.eq_of_length rfl
      exact separator
    · exact absurd tail.length_le (by simp)
  · exact fun separator => ⟨c, separator, .inl (List.suffix_refl _)⟩

/-- or behind one and the dots that were left out. -/
theorem opensThere_cons {c d : UInt8} {front : List UInt8} :
    OpensThere (c :: d :: front) ↔
      OpensThere (d :: front) ∨ IsSeparator c ∧ d = dot ∧ front = [] := by
  constructor
  · rintro ⟨sep, separator, tail | tail⟩
    · rcases List.suffix_cons_iff.mp tail with whole | tail
      · simp at whole
      · exact .inl ⟨sep, separator, .inl tail⟩
    · rcases List.suffix_cons_iff.mp tail with whole | tail
      · obtain ⟨rfl, rfl, rfl⟩ : sep = c ∧ dot = d ∧ [] = front := by simpa using whole
        exact .inr ⟨separator, rfl, rfl⟩
      · exact .inl ⟨sep, separator, .inr tail⟩
  · rintro (⟨sep, separator, tail⟩ | ⟨separator, rfl, rfl⟩)
    · exact ⟨sep, separator, tail.imp (·.trans (List.suffix_cons c _)) (·.trans (List.suffix_cons c _))⟩
    · exact ⟨c, separator, .inr (List.suffix_refl _)⟩

/-- Something is removed before the first separator that is written behind a character. -/
theorem runsOut_iff {c : UInt8} {rest : List UInt8} :
    RunsOut (firstWritten c) rest ↔ ∀ front behind, rest = front ++ backslash :: behind →
      backslash ∉ front → OpensThere (c :: front) := by
  induction rest generalizing c with
  | nil => simp [RunsOut]
  | cons d rest ih =>
      simp only [RunsOut, ← isSeparator_iff]
      by_cases removed : d = dot ∧ IsSeparator c ∧ rest.head? = some backslash
      · rw [if_pos removed]
        obtain ⟨rfl, separator, second⟩ := removed
        obtain ⟨tail, rfl⟩ := List.head?_eq_some_iff.mp second
        refine iff_of_true trivial fun front behind split noBackslash => ?_
        match front with
        | [] => exact absurd (List.cons.inj split).1 (by decide)
        | [_] =>
            obtain rfl := (List.cons.inj split).1
            exact opensThere_cons.mpr (.inr ⟨separator, rfl, rfl⟩)
        | _ :: other :: _ =>
            obtain rfl : backslash = other := (List.cons.inj (List.cons.inj split).2).1
            simp at noBackslash
      · rw [if_neg removed]
        by_cases isBackslash : d = backslash
        · rw [if_pos isBackslash, ← opensThere_singleton]
          constructor
          · rintro opens front behind split noBackslash
            cases front with
            | nil => exact opens
            | cons other front =>
                obtain rfl : d = other := (List.cons.inj split).1
                exact absurd (isBackslash ▸ List.mem_cons_self) noBackslash
          · exact fun opens => opens [] rest (by rw [isBackslash]; rfl) List.not_mem_nil
        · have kept : firstWritten d = d := if_neg isBackslash
          have later := @ih d
          rw [kept] at later
          rw [if_neg isBackslash, later]
          constructor
          · rintro opens front behind split noBackslash
            cases front with
            | nil => exact absurd (List.cons.inj split).1 isBackslash
            | cons other front =>
                obtain ⟨rfl, later⟩ := List.cons.inj split
                have noBackslash := (not_or.mp (mt List.mem_cons.mpr noBackslash)).2
                exact opensThere_cons.mpr (.inl (opens front behind later noBackslash))
          · rintro opens front behind rfl noBackslash
            have opened := opens (d :: front) behind rfl
              (List.not_mem_cons_of_ne_of_not_mem (Ne.symm isBackslash) noBackslash)
            refine (opensThere_cons.mp opened).resolve_right ?_
            rintro ⟨separator, isDot, rfl⟩
            exact removed ⟨isDot, separator, rfl⟩

/-- No slash comes behind a separator, and no single dot between separators is left. -/
def Separated (path : List UInt8) : Prop :=
  ∀ sep, IsSeparator sep → ¬ [sep, slash] <:+: path ∧ ¬ [sep, dot, slash] <:+: path ∧
    ¬ [sep, dot] <:+ path

/-- Components are separated if the first place is clean and the others are. -/
theorem separated_cons {c d : UInt8} {rest : List UInt8} :
    Separated (c :: d :: rest) ↔ ¬ (IsSeparator c ∧
      (d = slash ∨ d = dot ∧ (rest = [] ∨ rest.head? = some slash))) ∧ Separated (d :: rest) := by
  have infixes : ∀ sep, (¬ [sep, slash] <:+: c :: d :: rest ∧
      ¬ [sep, dot, slash] <:+: c :: d :: rest ∧ ¬ [sep, dot] <:+ c :: d :: rest) ↔
      ¬ (sep = c ∧ (d = slash ∨ d = dot ∧ (rest = [] ∨ rest.head? = some slash))) ∧
      ¬ [sep, slash] <:+: d :: rest ∧ ¬ [sep, dot, slash] <:+: d :: rest ∧
      ¬ [sep, dot] <:+ d :: rest := by
    intro sep
    have slashHead : [slash] <+: rest ↔ rest.head? = some slash := by
      cases rest <;> simp [eq_comm]
    have infix_ : ∀ pattern, pattern <:+: c :: d :: rest ↔
        pattern <+: c :: d :: rest ∨ pattern <:+: d :: rest := fun _ => List.infix_cons_iff
    rw [infix_, infix_, List.suffix_cons_iff, ← slashHead]
    simp only [List.cons_prefix_cons, List.nil_prefix, List.cons.injEq, eq_comm (b := d), eq_comm (a := [])]
    tauto
  constructor
  · intro separated
    refine ⟨?_, fun sep separator => ((infixes sep).mp (separated sep separator)).2⟩
    rintro ⟨separator, bad⟩
    exact ((infixes c).mp (separated c separator)).1 ⟨rfl, bad⟩
  · rintro ⟨good, separated⟩ sep separator
    refine (infixes sep).mpr ⟨?_, separated sep separator⟩
    rintro ⟨rfl, bad⟩
    exact good ⟨separator, bad⟩

/-- Where one is in a path behind a character. -/
def placeBehind (c : UInt8) : PathPlace := if IsSeparator c then .opened else .inside

/-- The written text is the clean one, or longer. -/
def Compares (clean written : List UInt8) (same : Prop) : Prop :=
  clean.length ≤ written.length ∧ (clean = written ↔ same)

/-- A character on both sides changes nothing. -/
theorem Compares.cons {clean written : List UInt8} {same : Prop}
    (compares : Compares clean written same) (c : UInt8) :
    Compares (c :: clean) (c :: written) same :=
  ⟨Nat.succ_le_succ compares.1, by rw [List.cons.injEq, eq_self, true_and, compares.2]⟩

/-- What is written is longer where something is left in. -/
theorem Compares.longer {clean written more : List UInt8} {same bad : Prop}
    (compares : Compares clean written same) (extra : more ≠ []) (notSame : ¬ bad) :
    Compares clean (more ++ written) bad := by
  have longer := List.length_pos_of_ne_nil extra
  have shorter := compares.1
  refine ⟨by rw [List.length_append]; omega, iff_of_false (fun equal => ?_) notSame⟩
  rw [equal, List.length_append] at shorter
  omega

/-- A comparison may speak of the same in other words. -/
theorem Compares.congr {clean written : List UInt8} {same same' : Prop}
    (compares : Compares clean written same) (equal : same' ↔ same) :
    Compares clean written same' :=
  ⟨compares.1, compares.2.trans equal.symm⟩

/-- One character is separated. -/
theorem separated_singleton (c : UInt8) : Separated [c] := fun _ _ =>
  ⟨fun found => absurd found.length_le (by simp), fun found => absurd found.length_le (by simp),
    fun found => absurd found.length_le (by simp)⟩

/-- A separator behind another character is written as a slash. -/
theorem fixedText_separator {last e : UInt8} {rest : List UInt8} (inside : last ≠ slash)
    (next : IsSeparator e) : fixedText last (e :: rest) = slash :: fixedText slash rest := by
  rw [fixedText, if_neg fun all => inside all.2.1, if_neg inside]
  rcases next with rfl | rfl <;> rfl

/-- What the loop writes behind a character is what a clean path has there, but for what it
should have removed. -/
theorem fixedText_behind (c : UInt8) (rest : List UInt8) :
    Compares (cleanPath (placeBehind c) rest) (fixedText (firstWritten c) rest)
      (Separated (c :: rest)) := by
  induction isLength : rest.length using Nat.strong_induction_on generalizing c rest with
  | _ count inductionHypothesis =>
    subst isLength
    cases rest with
    | nil => exact ⟨Nat.le_refl _, iff_of_true rfl (separated_singleton c)⟩
    | cons d rest =>
        have behind := inductionHypothesis rest.length (Nat.lt_succ_self _) d rest rfl
        by_cases separator : IsSeparator c
        · rw [placeBehind, if_pos separator, isSeparator_iff.mp separator]
          by_cases next : IsSeparator d
          · rw [cleanPath, if_pos next, if_pos rfl]
            rw [placeBehind, if_pos next, isSeparator_iff.mp next] at behind
            rcases next with rfl | rfl
            · exact behind.longer (List.cons_ne_nil slash []) fun separated =>
                (separated_cons.mp separated).1 ⟨separator, .inl rfl⟩
            · exact behind.congr (separated_cons.trans (and_iff_right
                (by simp [slash, backslash, dot, charOf])))
          · rw [cleanPath, if_neg next]
            by_cases dotted : d = dot ∧ EndsComponent rest
            · rw [if_pos ⟨dotted.1, by decide, dotted.2⟩]
              obtain ⟨rfl, ends⟩ := dotted
              cases rest with
              | nil =>
                  exact ⟨Nat.zero_le _, iff_of_false (by decide) fun separated =>
                    (separated_cons.mp separated).1 ⟨separator, .inr ⟨rfl, .inl rfl⟩⟩⟩
              | cons e rest =>
                  have behind := inductionHypothesis rest.length
                    (Nat.lt_succ_of_lt (Nat.lt_succ_self _)) e rest rfl
                  have next : IsSeparator e := ends e rfl
                  rw [cleanPath, if_pos next, if_pos rfl]
                  rw [placeBehind, if_pos next, isSeparator_iff.mp next] at behind
                  rcases next with rfl | rfl
                  · exact behind.longer (List.cons_ne_nil dot [slash]) fun separated =>
                      (separated_cons.mp separated).1 ⟨separator, .inr ⟨rfl, .inr rfl⟩⟩
                  · refine behind.congr ?_
                    rw [separated_cons, separated_cons]
                    simp [slash, backslash, dot, charOf, IsSeparator]
            · have kept : ¬ (d = dot ∧ rest.head? = some backslash) := fun ⟨isDot, second⟩ =>
                dotted ⟨isDot, fun e member => .inr (Option.some.inj (member.symm.trans second))⟩
              rw [placeBehind, if_neg next] at behind
              rw [if_neg fun all => dotted ⟨all.1, all.2.2⟩, fixedText,
                if_neg fun all => kept ⟨all.1, all.2.2⟩, if_neg (mt .inr next)]
              rw [firstWritten, if_neg (mt .inr next)] at behind
              refine (behind.cons d).congr (separated_cons.trans (and_iff_right ?_))
              rintro ⟨-, isSlash | ⟨isDot, isNil | isSlash⟩⟩
              · exact next (.inl isSlash)
              · exact dotted ⟨isDot, by simp [isNil, EndsComponent]⟩
              · exact dotted ⟨isDot, fun e member => .inl (Option.some.inj (member.symm.trans isSlash))⟩
        · have last : firstWritten c ≠ slash := mt isSeparator_iff.mpr separator
          have same : Separated (c :: d :: rest) ↔ Separated (d :: rest) :=
            separated_cons.trans (and_iff_right fun bad => separator bad.1)
          refine Compares.congr ?_ same
          rw [placeBehind, if_neg separator, cleanPath]
          by_cases next : IsSeparator d
          · rw [placeBehind, if_pos next, isSeparator_iff.mp next] at behind
            rw [if_pos next, if_neg (by decide), fixedText_separator last next]
            exact behind.cons slash
          · rw [placeBehind, if_neg next, firstWritten, if_neg (mt .inr next)] at behind
            rw [if_neg next, if_neg fun all => all.2.1 rfl, fixedText, if_neg fun all => last all.2.1,
              if_neg (mt .inr next)]
            exact behind.cons d

/-- The same is so for a whole path, unless it begins with a single dot. -/
theorem cleanPath_eq_iff {c : UInt8} {rest : List UInt8} :
    cleanPath .first (c :: rest) = firstWritten c :: fixedText (firstWritten c) rest ↔
      ¬ (c = dot ∧ EndsComponent rest) ∧ Separated (c :: rest) := by
  have behind := fixedText_behind c rest
  rw [cleanPath]
  by_cases separator : IsSeparator c
  · have notDot : c ≠ dot := by
      rcases separator with rfl | rfl <;> decide
    rw [placeBehind, if_pos separator, isSeparator_iff.mp separator] at behind
    rw [if_pos separator, if_neg (by decide), isSeparator_iff.mp separator, (behind.cons slash).2]
    exact (and_iff_right fun dotted => notDot dotted.1).symm
  · rw [if_neg separator]
    rw [placeBehind, if_neg separator] at behind
    have kept : firstWritten c = c := if_neg (mt .inr separator)
    rw [kept] at behind ⊢
    by_cases dotted : c = dot ∧ EndsComponent rest
    · rw [if_pos ⟨dotted.1, by decide, dotted.2⟩]
      refine iff_of_false (fun equal => ?_) fun all => all.1 dotted
      obtain ⟨rfl, ends⟩ := dotted
      cases rest with
      | nil => simp [cleanPath] at equal
      | cons e rest =>
          have shorter := (fixedText_behind e rest).1
          have next : IsSeparator e := ends e rfl
          rw [placeBehind, if_pos next, isSeparator_iff.mp next] at shorter
          rw [cleanPath, if_pos next, if_pos rfl, fixedText_separator (by decide) next] at equal
          rw [equal] at shorter
          simp only [List.length_cons] at shorter
          omega
    · rw [if_neg fun all => dotted ⟨all.1, all.2.2⟩, (behind.cons c).2]
      exact (and_iff_right dotted).symm

/-- A text starts with a component of a dot just when this ends there. -/
theorem starts_iff {c : UInt8} {rest : List UInt8} :
    (c :: rest ≠ [dot] ∧ ∀ sep, IsSeparator sep → ¬ [dot, sep] <+: c :: rest) ↔
      ¬ (c = dot ∧ EndsComponent rest) := by
  cases rest with
  | nil => simp [EndsComponent]
  | cons d rest =>
      simp only [EndsComponent, List.cons_prefix_cons, List.nil_prefix, List.head?_cons,
        Option.mem_some_iff]
      constructor
      · rintro ⟨-, starts⟩ ⟨rfl, ends⟩
        exact starts d (ends d rfl) ⟨rfl, rfl, trivial⟩
      · rintro other
        refine ⟨by simp, ?_⟩
        rintro sep separator ⟨rfl, rfl, -⟩
        exact other ⟨rfl, fun e isNext => isNext ▸ separator⟩

/-- Where the path is empty nothing is to be done. -/
theorem cleans_nil {area : Area} (holds : Holds area 0 []) : Cleans [] area := by
  have nul : area 0 = 0 := holds.bytes 0 (Nat.le_refl _)
  have start : (fixStart area).area = area := if_neg (by rw [nul]; decide)
  have ends : fixStep (fixStart area) = .done ((fixStart area).look 0) :=
    if_pos ((congrFun start 0).trans nul)
  have fixes : FixesTo 0 area [] ((fixStart area).look 0) :=
    ⟨.done ends, by simp [FixState.look, fixStart], by rw [← start] at holds; exact holds⟩
  have same : ((fixStart area).look 0).area = area := start
  have again : FixesTo 0 ((fixStart area).look 0).area [] ((fixStart area).look 0) := by
    rw [same]
    exact fixes
  exact ⟨_, fixes, (fixStart area).look 0, again, start ▸ rfl⟩

/-- Nothing is to be fixed in an empty path. -/
theorem fixable_nil : Fixable [] where
  opens c front rest split := by cases split
  starts := ⟨by simp, fun sep _ => by simp⟩
  slashes sep _ := by simp
  dots sep _ := by simp

/-- A path in a buffer of its size is cleaned there, and a second time nothing changes, if and
only if something is removed before the first separator behind it is written, and only
backslashes are to be removed. -/
theorem fixPathName_cleans_iff (path : List UInt8) (area : Area) (holds : Holds area 0 path) :
    Cleans path area ↔ Fixable path := by
  cases path with
  | nil => exact iff_of_true (cleans_nil holds) fixable_nil
  | cons c rest =>
      rw [cleans_iff_text holds, runsOut_iff, cleanPath_eq_iff, ← starts_iff]
      constructor
      · rintro ⟨opens, starts, separated⟩
        exact
          { opens := by
              rintro d front behind split noBackslash
              obtain ⟨rfl, later⟩ := List.cons.inj split
              exact opens front behind later noBackslash
            starts := starts
            slashes := fun sep separator => (separated sep separator).1
            dots := fun sep separator => (separated sep separator).2 }
      · rintro fixable
        exact ⟨fun front behind split => fixable.opens c front behind (congrArg (c :: ·) split),
          fixable.starts, fun sep separator => ⟨fixable.slashes sep separator, fixable.dots sep separator⟩⟩

/-- Separators in front are cleaned, -/
theorem fixPathName_cleans_leading :
    Cleans (ascii "\\\\EFI\\boot") (areaOf (ascii "\\\\EFI\\boot")) := by
  have runsOut : RunsOut (firstWritten backslash) (ascii "\\EFI\\boot") := rfl
  refine (fixPathName_cleans_iff _ _ (holds_areaOf (nulFree_of_all (by decide)))).mpr
    { opens := ?_
      starts := ⟨by decide, ?_⟩
      slashes := ?_
      dots := ?_ }
  · rintro c front rest split noBackslash
    obtain ⟨rfl, later⟩ := List.cons.inj split
    exact runsOut_iff.mp runsOut front rest later noBackslash
  · rintro sep (rfl | rfl) <;> decide
  · rintro sep (rfl | rfl) <;> decide
  · rintro sep (rfl | rfl) <;> decide

/-- A path does not come to an end whose first component, behind one separator, is ended by a
backslash. -/
theorem not_returns_of_component {area : Area} {name rest : List UInt8}
    (holds : Holds area 0 (backslash :: (name ++ backslash :: rest)))
    (plain : ∀ c ∈ name, ¬ IsSeparator c) (notEmpty : name ≠ []) (notDot : name ≠ [dot])
    (result : FixState) : ¬ Returns fixStep (fixStart area) result := by
  refine (fixing_fixStart holds).runs_away rfl (fun runsOut => ?_) result
  obtain ⟨sep, separator, tail⟩ := runsOut_iff.mp runsOut name rest rfl
    fun member => plain _ member (.inr rfl)
  rcases tail with tail | tail
  · rcases List.suffix_cons_iff.mp tail with whole | tail
    · exact notEmpty (List.cons.inj whole).2.symm
    · exact plain sep (tail.mem List.mem_cons_self) separator
  · rcases List.suffix_cons_iff.mp tail with whole | tail
    · exact notDot (List.cons.inj whole).2.symm
    · exact plain sep (tail.mem List.mem_cons_self) separator

/-- The names of two directories, as they are in the nodes of a device path. -/
private def bootNodes : List DevicePathNode :=
  [⟨true, [0x45, 0x46, 0x49, 0]⟩, ⟨true, [0x62, 0x6f, 0x6f, 0x74, 0]⟩]

/-- but the second one of a path name from the firmware is left. -/
theorem fixPathName_not_cleans :
    grubEfiFilePathToPathName bootNodes = ascii "\\EFI\\boot" ∧
      ¬ Cleans (ascii "\\EFI\\boot") (areaOf (ascii "\\EFI\\boot")) := by
  refine ⟨by decide, ?_⟩
  rintro ⟨result, ⟨returns, -⟩, -⟩
  have plain : (ascii "EFI").all (fun c => ¬ IsSeparator c) = true := by decide
  exact @not_returns_of_component _ (ascii "EFI") (ascii "boot")
    (holds_areaOf (nulFree_of_all (by decide)))
    (fun c among => of_decide_eq_true (List.all_eq_true.mp plain c among)) (by decide) (by decide)
    result returns

end GrubLegacy.Efi
