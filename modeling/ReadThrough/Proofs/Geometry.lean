import ReadThrough.Cache

/-!
# Accepted geometries

An accepted configuration gives every bucket the same number of pages, at least one, and all pages
belong to some bucket. `Cache.bucket` is one of the buckets of a cache.
-/

namespace ReadThrough

/-- The geometry of an accepted configuration is the rounded one, of a positive page count and of
pages that are not too large. -/
theorem Config.eq_of_geometry_eq_ok {config : Config} {g : Geometry}
    (h : config.geometry = .ok g) :
    0 < config.pageCount ∧ config.pageSize ≤ Geometry.maxPageSize ∧
      g = ⟨ceilLog2 config.pageSize, roundUp config.pageCount Geometry.bucketCount⟩ := by
  unfold geometry at h
  dsimp only at h
  split at h
  · exact absurd h (by simp)
  split at h
  · exact absurd h (by simp)
  rename_i hsize
  split at h
  · exact absurd h (by simp)
  rename_i hcount
  split at h
  · exact absurd h (by simp)
  split at h
  · exact absurd h (by simp)
  split at h
  · exact absurd h (by simp)
  exact ⟨Nat.pos_of_ne_zero hcount, Nat.le_of_not_lt hsize, (Except.ok.inj h).symm⟩

/-- Rounding does not make an accepted page too large. -/
theorem Config.pageSize_le_of_geometry_eq_ok {config : Config} {g : Geometry}
    (h : config.geometry = .ok g) : g.pageSize ≤ Geometry.maxPageSize := by
  obtain ⟨-, hsize, rfl⟩ := Config.eq_of_geometry_eq_ok h
  have hshift : ceilLog2 config.pageSize ≤ 30 := ceilLog2_le_of_le_shiftLeft hsize
  rw [Geometry.pageSize, Geometry.maxPageSize, Nat.one_shiftLeft, Nat.one_shiftLeft]
  exact Nat.pow_le_pow_right (by decide) hshift

/-- The buckets of an accepted geometry share its pages evenly and none is empty. -/
theorem Config.pagesPerBucket_of_geometry_eq_ok {config : Config} {g : Geometry}
    (h : config.geometry = .ok g) :
    1 ≤ g.pagesPerBucket ∧ g.pageCount = Geometry.bucketCount * g.pagesPerBucket := by
  obtain ⟨hpos, -, rfl⟩ := Config.eq_of_geometry_eq_ok h
  obtain ⟨k, hk⟩ := dvd_roundUp config.pageCount Geometry.bucketCount
  have hle : config.pageCount ≤ roundUp config.pageCount Geometry.bucketCount :=
    le_roundUp (by decide)
  simp only [Geometry.pagesPerBucket, Geometry.bucketCount] at hk hle ⊢
  omega

theorem Geometry.pageSize_pos (g : Geometry) : 0 < g.pageSize := by
  rw [pageSize, Nat.one_shiftLeft]
  exact Nat.two_pow_pos _

namespace Cache

/-- A cache for a configuration is that of its geometry. -/
theorem eq_of_ofConfig_eq_ok {config : Config} {seed : UInt64} {c : Cache}
    (h : ofConfig config seed = .ok c) :
    ∃ g, config.geometry = .ok g ∧ c = ofGeometry g seed := by
  unfold ofConfig at h
  rcases hg : config.geometry with error | g
  · rw [hg] at h
    exact absurd h (by simp [Except.map])
  · rw [hg] at h
    exact ⟨g, rfl, (Except.ok.inj h).symm⟩

/-- One of the buckets of a cache. -/
def bucket (c : Cache) (shard : Fin Geometry.bucketCount) : CacheBucket := c.buckets.get shard

/-- An operation on the bucket of a key changes that bucket and no other. -/
theorem bucket_onBucket {α : Type} (c : Cache) (key : PageKey)
    (act : CacheBucket → α × CacheBucket) (shard : Fin Geometry.bucketCount) :
    (c.onBucket key act).2.bucket shard
      = if c.shardOf key = shard then (act (c.bucket shard)).2 else c.bucket shard :=
  c.getElem_onBucket key act shard

theorem bucket_ofGeometry (g : Geometry) (seed : UInt64) (shard : Fin Geometry.bucketCount) :
    (ofGeometry g seed).bucket shard = .ofCapacity g.pagesPerBucket g.pageShift .empty :=
  Vector.getElem_replicate ..

end Cache

end ReadThrough
