import XeBuild.Iso2svod.CopyLoop

/-!
# The conversion refines the layout

When every call succeeds, `writeIsoBody` leaves the data files of the payload
with empty links, and `fixIsoHeaders` turns them into the finished ones: the
state on the disk is the layout of `SvodLayout`, file by file.
-/

namespace XeBuild.Iso2svod

open ListRange ListChunks

set_option autoImplicit false

/-- The sector range `getDiskEnd` leaves: both ends even and not empty. -/
structure SectorRange (minSector maxSector : UInt32) : Prop where
  minEven : minSector.toNat % 2 = 0
  maxEven : maxSector.toNat % 2 = 0
  ordered : minSector.toNat < maxSector.toNat

/-- No call is made to fail, and the image holds what the run reads. -/
structure AllSucceeds (env : Env) (maxSector : UInt32) : Prop where
  calls : ∀ call, env.fails call = none
  volume : SVOD_START_SECTOR * XGD_SECTOR_SIZE + env.baseOffset + 0x1000 ≤ env.isoData.length
  sectors : maxSector.toNat * XGD_SECTOR_SIZE + env.baseOffset ≤ env.isoData.length

def isoSector (env : Env) (sector : Nat) : Bytes :=
  slice env.isoData (sector * XGD_SECTOR_SIZE + env.baseOffset) XGD_SECTOR_SIZE

def isoPayload (env : Env) (minSector maxSector : UInt32) : Bytes :=
  slice env.isoData (SVOD_START_SECTOR * XGD_SECTOR_SIZE + env.baseOffset) 0x1000 ++
    slice env.isoData (minSector.toNat * XGD_SECTOR_SIZE + env.baseOffset)
      ((maxSector.toNat - minSector.toNat) * XGD_SECTOR_SIZE)

section Payload

variable {env : Env} {minSector maxSector : UInt32}

theorem range_in_image (range : SectorRange minSector maxSector)
    (success : AllSucceeds env maxSector) :
    minSector.toNat * XGD_SECTOR_SIZE + env.baseOffset +
      (maxSector.toNat - minSector.toNat) * XGD_SECTOR_SIZE ≤ env.isoData.length := by
  have sectors := success.sectors
  have split : minSector.toNat * XGD_SECTOR_SIZE +
      (maxSector.toNat - minSector.toNat) * XGD_SECTOR_SIZE =
        maxSector.toNat * XGD_SECTOR_SIZE := by
    rw [← Nat.add_mul, Nat.add_sub_cancel' range.ordered.le]
  rw [← split] at sectors
  generalize (maxSector.toNat - minSector.toNat) * XGD_SECTOR_SIZE = size at sectors ⊢
  generalize minSector.toNat * XGD_SECTOR_SIZE = start at sectors ⊢
  omega

theorem iso_payload_length (range : SectorRange minSector maxSector)
    (success : AllSucceeds env maxSector) :
    (isoPayload env minSector maxSector).length =
      0x1000 + (maxSector.toNat - minSector.toNat) * 0x800 := by
  rw [isoPayload, List.length_append, slice_length_of_le success.volume,
    slice_length_of_le (range_in_image range success), XGD_SECTOR_SIZE]

theorem iso_payload_aligned (range : SectorRange minSector maxSector)
    (success : AllSucceeds env maxSector) :
    blockSize ∣ (isoPayload env minSector maxSector).length := by
  have minEven := range.minEven
  have maxEven := range.maxEven
  rw [iso_payload_length range success, blockSize]
  omega

theorem iso_payload_nonempty (range : SectorRange minSector maxSector)
    (success : AllSucceeds env maxSector) : 0 < (isoPayload env minSector maxSector).length := by
  rw [iso_payload_length range success]
  omega

def payloadOf (range : SectorRange minSector maxSector) (success : AllSucceeds env maxSector) :
    Payload where
  bytes := isoPayload env minSector maxSector
  aligned := iso_payload_aligned range success
  nonempty := iso_payload_nonempty range success

end Payload

/-! ## `writeIsoBody` -/

section Body

variable {env : Env} {minSector maxSector : UInt32} {isoPos : Nat} {headerBuffer : Bytes}

def volumeLoaded (env : Env) (s : IsoIo) : IsoIo :=
  { fileStarted 0 s with
    isoPos := s.minSector.toNat * XGD_SECTOR_SIZE + env.baseOffset
    dataBlocks := patch s.dataBlocks 0
      (slice env.isoData (SVOD_START_SECTOR * XGD_SECTOR_SIZE + env.baseOffset) 0x1000)
    calls := (.readVolume, true) :: (fileStarted 0 s).calls }

theorem volume_loaded_at_head (isoPos : Nat) (headerBuffer : Bytes)
    (range : SectorRange minSector maxSector)
    (success : AllSucceeds env maxSector) :
    AtHead env
      ⟨0, 0, 0x1000, maxSector.toNat - minSector.toNat, ⟨0, 0x1000⟩, Nat.le_refl _⟩
      (volumeLoaded env (IsoIo.initial minSector maxSector isoPos headerBuffer)) []
      (payloadOf range success).bytes := by
  have volume := slice_length_of_le success.volume
  have length := iso_payload_length range success
  have ordered := range.ordered
  have word := maxSector.toNat_lt
  have empty : openContents env.sha [] = zeros 0x1000 := by simp [openContents, bodyBytes]
  have split : zeros SVOD_MAX_DATA_BLOCK_SIZE =
      zeros 0x1000 ++ zeros (SVOD_MAX_DATA_BLOCK_SIZE - 0x1000) := by
    rw [zeros_append, SVOD_MAX_DATA_BLOCK_SIZE]
  refine ⟨rfl, by decide, ?_, ?_, empty_level1_table env.sha, rfl, Or.inr rfl, ?_, ?_,
    (payloadOf range success).aligned, ?_, ?_, ?_, rfl⟩
  · simp [empty]
  · simp [volumeLoaded, fileStarted, empty]
  · change patch (zeros SVOD_MAX_DATA_BLOCK_SIZE) 0 _ =
      (isoPayload env minSector maxSector).take 0x1000 ++ _
    rw [split, patch_front _ _ _ (by rw [volume, zeros_length]), isoPayload,
      List.take_append_of_le_length (by rw [volume]), List.take_of_length_le (by rw [volume])]
  · exact length.symm
  · exact range_in_image range success
  · change _ = (isoPayload env minSector maxSector).drop 0x1000
    rw [isoPayload, List.drop_left' volume]
    rfl
  · change maxSector.toNat - minSector.toNat < _
    omega

theorem write_iso_body_run (isoPos : Nat) (headerBuffer : Bytes)
    (range : SectorRange minSector maxSector)
    (success : AllSucceeds env maxSector) :
    let s := IsoIo.initial minSector maxSector isoPos headerBuffer
    let payload := payloadOf range success
    ∃ s', writeIsoBody env s = (payload.files.length - 1, s') ∧
      BodyDone env 0 payload.files payload.segments (volumeLoaded env s) s' := by
  intro s payload
  have head := volume_loaded_at_head isoPos headerBuffer range success
  have ordered := range.ordered
  have rem : sub32 maxSector.toNat minSector.toNat = maxSector.toNat - minSector.toNat :=
    sub32_of_le ordered.le maxSector.toNat_lt
  obtain ⟨s', run, done⟩ := copy_loop_run success.calls head
    (show maxSector.toNat - minSector.toNat ≠ 0 by omega)
  refine ⟨s', ?_, done⟩
  have volume : (setIsoSector env SVOD_START_SECTOR (fileStarted 0 s)).isoPos + 0x1000 ≤
      env.isoData.length := success.volume
  rw [writeIsoBody, start_succeeds (success.calls _) (success.calls _)]
  simp only [read_succeeds (success.calls _) volume]
  change bodyLoop env ⟨0, 0, 0x1000, sub32 maxSector.toNat minSector.toNat, ⟨0, 0x1000⟩, _⟩
    (volumeLoaded env s) = _
  simp only [rem]
  rw [run, Nat.zero_add]
  rfl

end Body

end XeBuild.Iso2svod
