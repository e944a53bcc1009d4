import GrubLegacy.DiskIo.ReadAfterWrite

/-!
# The EZ-Drive mapping

On a disk whose first sector has a slot of the EZ-Drive type, `rawread` shows sector 1 in
the place of sector 0. The test looks at the start of the buffer whenever `buf_track` is 0,
also when the buffer was filled from the middle of track 0.
-/

namespace GrubLegacy.DiskIo

open GrubLegacy.Base GrubLegacy.Stage2

namespace Medium

variable {World : Type} (medium : Medium World)

/-- The calls of a run: `rawread` with arguments that are `int`s and an offset inside of
the sector, and the reset of `errnum` by a caller. -/
def Reads : DiskCall → Prop
  | .rawread sector byteOffset byteLen =>
    sector < 2 ^ 31 ∧ 0 ≤ byteOffset ∧ byteOffset < 512 ∧ byteLen < 2 ^ 31
  | .rawwrite _ _ => False
  | .clearError => True

/-- A read that is not in the buffer does not start in the middle of a track and run past
its end, when the next track does not begin on the medium or, on the first track, when the
sector it starts with has a slot of the EZ-Drive type. -/
def Placed (state : DiskState World) : DiskCall → Prop
  | .rawread sector byteOffset byteLen =>
    ¬ medium.CutOff ⟨medium.drive, sector, byteOffset, byteLen⟩ state ∧
      (state.errnum = .none →
        ¬ medium.Buffered ⟨medium.drive, sector, byteOffset, byteLen⟩ state →
        ¬ medium.Mistaken ⟨medium.drive, sector, byteOffset, byteLen⟩ state.world)
  | _ => True

/-- A `rawread` that returns 1 delivers the disk as it is to be shown. -/
def Shows (state : DiskState World) : DiskCall → Prop
  | .rawread sector byteOffset byteLen =>
    let result := rawread medium.service state medium.drive sector byteOffset byteLen
    result.value = 1 → result.bytes =
      bytesFrom (medium.shown state.world) (sector * 512 + byteOffset) byteLen
  | _ => True

/-- One call keeps the disk, keeps the cache as it is to be shown, and shows the disk. -/
theorem step_shown {state : DiskState World} {call : DiskCall}
    (coherent : medium.Coherent medium.shown state)
    (allowed : Reads call ∧ medium.Placed state call) :
    medium.content (medium.step state call).world = medium.content state.world ∧
      medium.Coherent medium.shown (medium.step state call) ∧ medium.Shows state call := by
  obtain ⟨reads, placed⟩ := allowed
  cases call with
  | rawread sector byteOffset byteLen =>
      obtain ⟨sector_lt, offset, offset_lt, len_lt⟩ := reads
      exact medium.rawread_spec medium.kept_shown coherent sector_lt offset offset_lt len_lt
        placed.1 placed.2
  | rawwrite sector data => exact absurd reads id
  | clearError => exact ⟨rfl, coherent, trivial⟩

/-- The EZ-Drive mapping is exact in every run of reads from an empty cache that does not
displace a track: sector 0 is shown as sector 1 if it is marked, and all else as stored. -/
theorem rawread_shows_disk {state : DiskState World} (empty : state.bufDrive = -1)
    {calls : List DiskCall}
    (run : Along medium.step (fun state call => Reads call ∧ medium.Placed state call) state
      calls) :
    Along medium.step (fun state_ call => medium.Shows state_ call ∧
      medium.content state_.world = medium.content state.world) state calls := by
  refine Along.of_invariant
    (fun state_ => medium.Coherent medium.shown state_ ∧
      medium.content state_.world = medium.content state.world)
    (fun _ _ invariant allowed => ?_) (fun _ _ invariant allowed => ?_) ⟨?_, rfl⟩ run
  · obtain ⟨content, coherent, _⟩ := medium.step_shown invariant.1 allowed
    exact ⟨coherent, content.trans invariant.2⟩
  · exact ⟨(medium.step_shown invariant.1 allowed).2.2, invariant.2⟩
  · intro same
    have := medium.drive_nonneg
    omega

end Medium

/-- An EZ-Drive disk in memory: a slot of sector 0 has the type, and sector 1 holds sevens. -/
def ezDriveState : DiskState (Int → UInt8) :=
  { blankState with world := fun address =>
      if address = 450 then 0x55 else if 512 ≤ address ∧ address < 1024 then 7 else 0 }

/-- Sector 0 is shown as sector 1, when it is read first and from the buffer. -/
theorem rawread_shows_ezDrive :
    Along (ramMedium 112).step (fun state call => (ramMedium 112).Shows state call ∧
      (ramMedium 112).content state.world = (ramMedium 112).content ezDriveState.world)
      ezDriveState [.rawread 0 450 1, .rawread 3 0 4, .clearError, .rawread 0 0 4] :=
  (ramMedium 112).rawread_shows_disk rfl (by
    have short : ∀ sector byteOffset byteLen : Int,
        ¬ Medium.Spills ⟨0x80, sector, byteOffset, byteLen⟩ →
        ∀ state, (ramMedium 112).Placed state (.rawread sector byteOffset byteLen) :=
      fun _ _ _ fits _ => ⟨fun cut => fits cut.2.2.2.1, fun _ _ mistaken => fits mistaken.1⟩
    exact ⟨⟨⟨by decide, by decide, by decide, by decide⟩, short _ _ _ (by decide) _⟩,
      ⟨⟨by decide, by decide, by decide, by decide⟩, short _ _ _ (by decide) _⟩,
      ⟨trivial, trivial⟩,
      ⟨⟨by decide, by decide, by decide, by decide⟩, short _ _ _ (by decide) _⟩, trivial⟩)

/-- Sector 54 holds what looks like a slice table. -/
def tableInFile : DiskState (Int → UInt8) :=
  { blankState with world := fun address => if address = 54 * 512 + 450 then 0x55 else 0 }

/-- A read from sector 54 on into the second track delivers sector 55 in its place. -/
theorem rawread_shows_next_sector :
    tableInFile.bufDrive = -1 ∧ Medium.Reads (.rawread 54 450 575) ∧
      ¬ Along (ramMedium 112).step (ramMedium 112).Shows tableInFile [.rawread 54 450 575] := by
  refine ⟨rfl, ⟨by decide, by decide, by decide, by decide⟩, fun shows => ?_⟩
  have first := congrArg List.head? (shows.1 (by decide +kernel))
  exact absurd first (by decide +kernel)

end GrubLegacy.DiskIo
