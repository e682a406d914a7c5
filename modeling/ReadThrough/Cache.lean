import ReadThrough.Eviction.Lru
import ReadThrough.Notice
import ReadThrough.Router

/-!
# Caches

A `Cache` splits its pages evenly over `Geometry.bucketCount` buckets and routes every page to one
of them by a seeded hash. A bucket never takes from another, so all that concerns a page goes
through `Cache.onBucket` with the bucket of its key. Each bucket gives up its least recently used
page.
-/

namespace ReadThrough

/-- The buckets of a cache give up the least recently used page. -/
abbrev CacheBucket := Bucket (Lru PageKey Slot)

/-- A page cache. -/
structure Cache where
  geometry : Geometry
  /-- Decides, with the key, in which bucket a page is kept. -/
  seed : UInt64
  buckets : Vector CacheBucket Geometry.bucketCount

namespace Cache

/-- The cache of a geometry, with all pages free. -/
def ofGeometry (geometry : Geometry) (seed : UInt64) : Cache where
  geometry := geometry
  seed := seed
  buckets := Vector.replicate _ (.ofCapacity geometry.pagesPerBucket geometry.pageShift .empty)

/-- The cache for a configuration, if it is accepted. -/
def ofConfig (config : Config) (seed : UInt64) : Except ConfigError Cache :=
  config.geometry.map (ofGeometry · seed)

/-! ## Routing -/

/-- The router over the buckets. -/
def router (c : Cache) : Router := .ofShards Geometry.bucketCount c.seed

theorem shardCount_router (c : Cache) : c.router.shardCount = Geometry.bucketCount := rfl

/-- The bucket that keeps a page. -/
def shardOf (c : Cache) (key : PageKey) : Fin Geometry.bucketCount :=
  ⟨c.router.place key, c.router.place_lt_shardCount key⟩

/-- Applies an operation to the bucket of a key. -/
def onBucket {α : Type} (c : Cache) (key : PageKey) (act : CacheBucket → α × CacheBucket) :
    α × Cache :=
  let shard := c.shardOf key
  let (result, bucket) := act c.buckets[shard]
  (result, { c with buckets := c.buckets.set shard bucket })

@[simp] theorem geometry_onBucket {α : Type} (c : Cache) (key : PageKey)
    (act : CacheBucket → α × CacheBucket) : (c.onBucket key act).2.geometry = c.geometry := rfl

@[simp] theorem shardOf_onBucket {α : Type} (c : Cache) (key other : PageKey)
    (act : CacheBucket → α × CacheBucket) :
    (c.onBucket key act).2.shardOf other = c.shardOf other := rfl

/-- An operation on the bucket of a key changes that bucket and no other. -/
theorem getElem_onBucket {α : Type} (c : Cache) (key : PageKey)
    (act : CacheBucket → α × CacheBucket) (shard : Fin Geometry.bucketCount) :
    (c.onBucket key act).2.buckets[shard]
      = if c.shardOf key = shard then (act c.buckets[shard]).2 else c.buckets[shard] := by
  simp only [onBucket, Fin.getElem_fin, Vector.getElem_set, Fin.ext_iff]
  split
  · rename_i h
    simp only [h]
  · rfl

/-! ## Pages -/

/-- Up to `count` bytes from `offset` on of a page, if it is resident. -/
def read (c : Cache) (key : PageKey) (offset count : Nat) : Lookup × Cache :=
  c.onBucket key (·.read key offset count)

/-- Hands out a slot for a page about to be fetched. -/
def acquire (c : Cache) (key : PageKey) : Grant × Cache :=
  c.onBucket key (·.acquire)

/-- Publishes the bytes of a page from an acquired slot; gives the slot that it had before. -/
def install (c : Cache) (key : PageKey) (slot : Slot) (data : Bytes) : Option Slot × Cache :=
  c.onBucket key (·.install key slot data)

/-- Gives back a slot acquired for a page. -/
def release (c : Cache) (key : PageKey) (slot : Slot) : Cache :=
  (c.onBucket key fun bucket => ((), bucket.release slot)).2

/-! ## Totals -/

/-- The totals of all buckets. -/
def counters (c : Cache) : Counters := .sum (c.buckets.toList.map (·.counters))

/-- The number of resident pages. -/
def residentPages (c : Cache) : Nat :=
  (c.buckets.toList.map (·.residentCount)).foldl (· + ·) 0

/-- The number of free slots. -/
def freePages (c : Cache) : Nat :=
  (c.buckets.toList.map (·.freeCount)).foldl (· + ·) 0

/-- A short description of the cache's shape. -/
def summary (c : Cache) : String :=
  let size := c.geometry.pageSize
  let count := c.geometry.pageCount
  let shards := c.router.shardCount
  s!"PageCache \x7b page_size: {size}, page_count: {count}, shards: {shards} \x7d"

end Cache

end ReadThrough
