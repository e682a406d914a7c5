import Mathlib.Order.Bounds.Basic
import ReadThrough.Proofs.Geometry
import ReadThrough.Proofs.Words

/-!
# Geometries in words

`Config.geometry?` is `Config.geometry` as it is computed in numbers of 64 bits. It never fails for
want of bits (`Config.geometry?_eq`), and a configuration is accepted exactly if what it is rounded
to fits (`Config.geometry_eq_ok_iff`). What is computed later from an accepted geometry, with
no check any more, fits as well.
-/

namespace ReadThrough

namespace Config

/-- Checks and rounds a configuration in numbers of 64 bits: there is no result if a step has none.
Of the two products that may be too large each is looked at, and is then a reason to reject. -/
def geometry? (config : Config) : Option (Except ConfigError Geometry) :=
  if config.pageSize = 0 then some (.error .zeroPageSize)
  else if Geometry.maxPageSize < config.pageSize then
    some (.error (.pageSizeTooLarge config.pageSize))
  else if config.pageCount = 0 then some (.error .zeroPageCount)
  else do
    let power ← Word.nextPowerOfTwo? config.pageSize
    let pageShift := Word.trailingZeros 64 power
    let multiple ← Word.divCeil? config.pageCount Geometry.bucketCount
    match Word.mul? multiple Geometry.bucketCount with
    | none => some (.error .pageCountOverflow)
    | some pageCount =>
      let geometry : Geometry := ⟨pageShift, pageCount⟩
      if Geometry.maxPagesPerBucket < geometry.pagesPerBucket then
        some (.error (.bucketTooLarge pageCount))
      else do
        let pageSize ← Word.shl? 1 pageShift
        match Word.mul? pageSize pageCount with
        | none => some (.error .sizeOverflow)
        | some _ => some (.ok geometry)

/-- No step in words is without a result. -/
theorem geometry?_eq {config : Config} (hcount : config.pageCount < Geometry.sizeLimit) :
    config.geometry? = some config.geometry := by
  unfold geometry? geometry
  dsimp only
  split
  · rfl
  split
  · rfl
  rename_i hlarge
  split
  · rfl
  have hshift : ceilLog2 config.pageSize < 64 := by
    have hle : ceilLog2 config.pageSize ≤ 30 :=
      ceilLog2_le_of_le_shiftLeft (Nat.le_of_not_lt hlarge)
    omega
  have hpower : Word.shl? 1 (ceilLog2 config.pageSize) = some (1 <<< ceilLog2 config.pageSize) :=
    Word.one_shl?_of_lt hshift
  have hnext : Word.nextPowerOfTwo? config.pageSize = some (1 <<< ceilLog2 config.pageSize) := by
    rwa [Word.shl?, if_pos hshift] at hpower
  have hzeros : Word.trailingZeros 64 (1 <<< ceilLog2 config.pageSize)
      = ceilLog2 config.pageSize := Word.trailingZeros_one_shiftLeft (Nat.le_of_lt hshift)
  have hmultiple : Word.divCeil? config.pageCount Geometry.bucketCount = some _ :=
    Word.divCeil?_eq (by decide) hcount
  -- the two products are the rounded count and the bytes of all pages
  have hproduct : Word.mul? ((config.pageCount + (Geometry.bucketCount - 1)) / Geometry.bucketCount)
      Geometry.bucketCount = word? (roundUp config.pageCount Geometry.bucketCount) := rfl
  have hbytes (pageCount : Nat) : Word.mul? (1 <<< ceilLog2 config.pageSize) pageCount
      = word? (Geometry.capacityBytes ⟨ceilLog2 config.pageSize, pageCount⟩) := rfl
  simp only [hnext, hmultiple, Option.bind_eq_bind, Option.bind_some, hzeros, hpower, hproduct,
    hbytes]
  by_cases hround : roundUp config.pageCount Geometry.bucketCount < Geometry.sizeLimit
  · rw [word?, if_pos hround, if_neg (Nat.not_le.2 hround)]
    dsimp only
    split
    · rfl
    · by_cases hfits : Geometry.capacityBytes ⟨ceilLog2 config.pageSize,
          roundUp config.pageCount Geometry.bucketCount⟩ < Geometry.sizeLimit
      · rw [word?, if_pos hfits, if_neg (Nat.not_le.2 hfits)]
      · rw [word?, if_neg hfits, if_pos (Nat.le_of_not_lt hfits)]
  · rw [word?, if_neg hround, if_pos (Nat.le_of_not_lt hround)]

/-- The geometry that a configuration asks for, whether it is accepted or not. -/
def rounded (config : Config) : Geometry :=
  ⟨ceilLog2 config.pageSize, roundUp config.pageCount Geometry.bucketCount⟩

theorem pagesPerBucket_rounded (config : Config) :
    config.rounded.pagesPerBucket = (config.pageCount + 63) / 64 :=
  Nat.mul_div_cancel _ (by decide)

/-- The geometry that a configuration asks for has to fit. -/
theorem geometry_eq_ok_iff (config : Config) {g : Geometry} : config.geometry = .ok g ↔
    (0 < config.pageSize ∧ config.pageSize ≤ Geometry.maxPageSize ∧ 0 < config.pageCount ∧
      config.rounded.pagesPerBucket ≤ Geometry.maxPagesPerBucket ∧
      config.rounded.capacityBytes < Geometry.sizeLimit) ∧ g = config.rounded := by
  constructor
  · intro hg
    unfold geometry at hg
    dsimp only at hg
    split_ifs at hg with hzero hlarge hnone hcount hbucket hbytes
    exact ⟨⟨Nat.pos_of_ne_zero hzero, Nat.le_of_not_lt hlarge, Nat.pos_of_ne_zero hnone,
      Nat.le_of_not_lt hbucket, Nat.lt_of_not_le hbytes⟩, (Except.ok.inj hg).symm⟩
  · rintro ⟨⟨hsize, hlarge, hcount, hbucket, hbytes⟩, rfl⟩
    have hround : config.rounded.pageCount < Geometry.sizeLimit :=
      Nat.lt_of_le_of_lt (Nat.le_mul_of_pos_left _ config.rounded.pageSize_pos) hbytes
    rw [rounded] at hround hbucket hbytes
    unfold geometry
    dsimp only
    rw [if_neg (Nat.ne_of_gt hsize), if_neg (Nat.not_lt.2 hlarge), if_neg (Nat.ne_of_gt hcount),
      if_neg (Nat.not_le.2 hround), if_neg (Nat.not_lt.2 hbucket), if_neg (Nat.not_le.2 hbytes)]
    rfl

end Config

/-! ## Accepted geometries -/

/-- The geometry is that of an accepted configuration of words. -/
structure Geometry.Accepted (g : Geometry) : Prop where
  pageShift_le : g.pageShift ≤ 30
  pagesPerBucket_pos : 1 ≤ g.pagesPerBucket
  pagesPerBucket_le : g.pagesPerBucket ≤ Geometry.maxPagesPerBucket
  pageCount_eq : g.pageCount = Geometry.bucketCount * g.pagesPerBucket
  capacityBytes_lt : g.capacityBytes < Geometry.sizeLimit

theorem Config.accepted_of_geometry_eq_ok {config : Config} {g : Geometry}
    (h : config.geometry = .ok g) : g.Accepted := by
  obtain ⟨hpages, hcount⟩ := Config.pagesPerBucket_of_geometry_eq_ok h
  obtain ⟨⟨-, hlarge, -, hbucket, hbytes⟩, rfl⟩ := config.geometry_eq_ok_iff.1 h
  exact ⟨ceilLog2_le_of_le_shiftLeft hlarge, hpages, hbucket, hcount, hbytes⟩

namespace Geometry.Accepted

variable {g : Geometry}

/-- The bytes of so many pages of a bucket fit. -/
theorem mul_pageSize_lt (h : g.Accepted) {count : Nat} (hcount : count ≤ g.pagesPerBucket) :
    count * g.pageSize < Geometry.sizeLimit := by
  have hall : g.pagesPerBucket ≤ g.pageCount := by
    rw [h.pageCount_eq]
    exact Nat.le_mul_of_pos_left _ (by decide)
  calc count * g.pageSize ≤ g.pageCount * g.pageSize :=
        Nat.mul_le_mul_right _ (Nat.le_trans hcount hall)
    _ = g.capacityBytes := Nat.mul_comm ..
    _ < Geometry.sizeLimit := h.capacityBytes_lt

/-- So many pages of a bucket end where the shift says. -/
theorem shl?_pageShift (h : g.Accepted) {count : Nat} (hcount : count ≤ g.pagesPerBucket) :
    Word.shl? count g.pageShift = some (count * g.pageSize) := by
  have hshift : g.pageShift < 64 := Nat.lt_of_le_of_lt h.pageShift_le (by decide)
  have heq : count <<< g.pageShift = count * g.pageSize := by
    rw [Geometry.pageSize, Nat.shiftLeft_eq, Nat.one_shiftLeft]
  rw [Word.shl?_of_lt hshift (heq ▸ h.mul_pageSize_lt hcount), heq]

/-- The pages of a bucket can be counted in 32 bits. -/
theorem toNat_toUInt32 (h : g.Accepted) {count : Nat} (hcount : count ≤ g.pagesPerBucket) :
    count.toUInt32.toNat = count := by
  have hle := Nat.le_trans hcount h.pagesPerBucket_le
  have hlimit : Geometry.maxPagesPerBucket + 1 = 2 ^ 32 := rfl
  exact Nat.mod_eq_of_lt (by omega)

end Geometry.Accepted

/-- A configuration of words is accepted if and only if its pages are neither empty nor too large,
there are some, and what they are rounded to fits, in slots by bucket and in bytes. The geometry has
the rounded values then. No step of this needs more than 64 bits, on any configuration, and neither
does what is computed from an accepted geometry: the bytes of the cache, where the pages of a bucket
end, and in 32 bits the numbers of its slots. -/
theorem geometry_accepts_what_fits (pageSize pageCount : UInt64) :
    let config : Config := ⟨pageSize.toNat, pageCount.toNat⟩
    let size := 1 <<< ceilLog2 config.pageSize
    let count := roundUp config.pageCount 64
    IsLeast {n | config.pageSize ≤ n ∧ ∃ e, n = 1 <<< e} size ∧
    IsLeast {n | config.pageCount ≤ n ∧ 64 ∣ n} count ∧
    ((∃ g, config.geometry = .ok g) ↔
      1 ≤ config.pageSize ∧ config.pageSize ≤ 1 <<< 30 ∧ 1 ≤ config.pageCount ∧
        (config.pageCount + 63) / 64 ≤ 1 <<< 32 - 1 ∧ size * count < 1 <<< 64) ∧
    config.geometry? = some config.geometry ∧
    ∀ g, config.geometry = .ok g →
      g.pageSize = size ∧ Word.shl? 1 g.pageShift = some size ∧ g.pageCount = count ∧
      g.pagesPerBucket = count / 64 ∧ 1 ≤ g.pagesPerBucket ∧ 64 * g.pagesPerBucket = count ∧
      Word.mul? g.pageSize g.pageCount = some g.capacityBytes ∧
      ∀ seed shard,
        let b := (Cache.ofGeometry g seed).bucket shard
        b.capacity = g.pagesPerBucket ∧
        Word.shl? b.capacity b.pageShift = some (b.capacity * size) ∧
        b.capacity.toUInt32.toNat = b.capacity ∧
        ∀ slot < b.capacity, slot.toUInt32.toNat = slot ∧
          Word.shl? (slot + 1) b.pageShift = some ((slot + 1) * size) := by
  intro config size count
  refine ⟨⟨⟨le_shiftLeft_ceilLog2 _, _, rfl⟩, ?_⟩, ⟨⟨le_roundUp (by decide), dvd_roundUp ..⟩, ?_⟩,
    ?_, Config.geometry?_eq pageCount.toNat_lt, fun g hg => ?_⟩
  · rintro _ ⟨hle, e, rfl⟩
    exact one_shiftLeft_le (ceilLog2_le_of_le_shiftLeft hle)
  · rintro n ⟨hle, hdvd⟩
    exact roundUp_le_of_dvd (by decide) hdvd hle
  · rw [← config.pagesPerBucket_rounded]
    constructor
    · rintro ⟨g, hg⟩
      exact (config.geometry_eq_ok_iff.1 hg).1
    · intro hfits
      exact ⟨_, config.geometry_eq_ok_iff.2 ⟨hfits, rfl⟩⟩
  · have haccepted := Config.accepted_of_geometry_eq_ok hg
    have hshift : g.pageShift < 64 := Nat.lt_of_le_of_lt haccepted.pageShift_le (by decide)
    obtain ⟨-, rfl⟩ := config.geometry_eq_ok_iff.1 hg
    refine ⟨rfl, Word.one_shl?_of_lt hshift, rfl, rfl, haccepted.pagesPerBucket_pos,
      haccepted.pageCount_eq.symm,
      Word.mul?_eq_some_iff.2 ⟨haccepted.capacityBytes_lt, rfl⟩, fun seed shard => ?_⟩
    rw [Cache.bucket_ofGeometry]
    exact ⟨rfl, haccepted.shl?_pageShift Nat.le.refl, haccepted.toNat_toUInt32 Nat.le.refl,
      fun slot hslot => ⟨haccepted.toNat_toUInt32 (Nat.le_of_lt hslot),
        haccepted.shl?_pageShift hslot⟩⟩

/-- Pages of 3000 bytes are rounded to 4096, and 100 of them to 128. -/
theorem geometry_accepts_what_fits_of_rounded :
    ∃ g, Config.geometry ⟨3000, 100⟩ = .ok g ∧ g.pageSize = 4096 ∧ g.pageCount = 128 ∧
      64 * g.pagesPerBucket = 128 ∧ Word.mul? g.pageSize g.pageCount = some g.capacityBytes := by
  obtain ⟨-, -, -, -, hvalues⟩ := geometry_accepts_what_fits 3000 100
  have hok : Config.geometry ⟨3000, 100⟩ = .ok ⟨12, 128⟩ := by decide
  obtain ⟨-, -, -, -, -, hpages, hbytes, -⟩ := hvalues _ hok
  exact ⟨_, hok, by decide, rfl, hpages, hbytes⟩

end ReadThrough
