import ReadThrough.Rounding

/-!
# Configuration and geometry

A `Config` is what the owner of a cache asks for, and a `Geometry` what the cache then has: the page
size rounded up to a power of two and the page count to a multiple of the number of buckets.
`Config.geometry` rejects, in a fixed order, what would be empty or what would not fit: a page above
`Geometry.maxPageSize`, a bucket whose slots a 32-bit number cannot name, or a cache whose bytes a
64-bit number cannot count.
-/

namespace ReadThrough

/-- Why a configuration was rejected. -/
inductive ConfigError where
  /-- Pages of no bytes. -/
  | zeroPageSize
  /-- Pages of `size` bytes are too large. -/
  | pageSizeTooLarge (size : Nat)
  /-- A cache of no pages. -/
  | zeroPageCount
  /-- The page count cannot be rounded up within 64 bits. -/
  | pageCountOverflow
  /-- `count` pages leave more in each bucket than 32 bits can number. -/
  | bucketTooLarge (count : Nat)
  /-- The bytes of all pages cannot be counted in 64 bits. -/
  | sizeOverflow
  /-- Any other reason, in words. -/
  | other (message : String)
  deriving DecidableEq

/-- A requested cache, before rounding. -/
structure Config where
  pageSize : Nat := 4096
  pageCount : Nat := 16384
  deriving DecidableEq

/-- The pages a cache has: `pageCount` of them, each of `2 ^ pageShift` bytes. -/
structure Geometry where
  pageShift : Nat
  pageCount : Nat
  deriving DecidableEq

namespace Geometry

/-- The number of buckets that the pages are split over. -/
def bucketCount : Nat := 64

/-- The largest page size that is accepted. -/
def maxPageSize : Nat := 1 <<< 30

/-- The largest number of slots in one bucket. -/
def maxPagesPerBucket : Nat := 1 <<< 32 - 1

/-- Sizes and counts stay below this bound. -/
def sizeLimit : Nat := 1 <<< 64

/-- The bytes of one page. -/
def pageSize (g : Geometry) : Nat := 1 <<< g.pageShift

/-- The pages of one bucket. -/
def pagesPerBucket (g : Geometry) : Nat := g.pageCount / bucketCount

/-- The bytes of all pages. -/
def capacityBytes (g : Geometry) : Nat := g.pageSize * g.pageCount

end Geometry

/-- The reason as it is shown to the owner of the configuration. -/
def ConfigError.message : ConfigError → String
  | zeroPageSize => "page size must be > 0"
  | pageSizeTooLarge size =>
    let limit := Geometry.maxPageSize
    s!"page size {size} exceeds the maximum of {limit} bytes"
  | zeroPageCount => "page count must be > 0"
  | pageCountOverflow => "page count overflows usize"
  | bucketTooLarge count =>
    let limit := Geometry.maxPagesPerBucket
    s!"page count {count} exceeds {limit} pages per bucket"
  | sizeOverflow => "cache size overflows usize"
  | other message => message

/-- Checks and rounds a configuration. -/
def Config.geometry (config : Config) : Except ConfigError Geometry :=
  let pageCount := roundUp config.pageCount Geometry.bucketCount
  let geometry : Geometry := ⟨ceilLog2 config.pageSize, pageCount⟩
  if config.pageSize = 0 then .error .zeroPageSize
  else if Geometry.maxPageSize < config.pageSize then
    .error (.pageSizeTooLarge config.pageSize)
  else if config.pageCount = 0 then .error .zeroPageCount
  else if Geometry.sizeLimit ≤ pageCount then .error .pageCountOverflow
  else if Geometry.maxPagesPerBucket < geometry.pagesPerBucket then
    .error (.bucketTooLarge pageCount)
  else if Geometry.sizeLimit ≤ geometry.capacityBytes then .error .sizeOverflow
  else .ok geometry

end ReadThrough
