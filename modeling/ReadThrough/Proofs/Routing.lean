import Mathlib.Order.Bounds.Defs
import ReadThrough.Proofs.Geometry
import ReadThrough.Proofs.Words

/-!
# Routing in words

A router computes its mask, its number of shards and the shard of a key in words of 64 bits. Up to
`2 ^ 63` shards nothing is lost on the way, so `Router` says it all in natural numbers: the number
of shards is the least power of two that will do (`Router.isLeast_shardCount`), keeping the low bits
is taking the remainder, and fewer shards split the keys more coarsely (`Router.placeBy_coarsen`).

The hash is any function of the bytes that it is fed. What it is fed for a page determines the page
and the seed (`Router.hashInput_pageKey_inj`), so two pages can share a hash only by its doing.
-/

namespace ReadThrough

/-- The rounded logarithm grows with its argument. -/
theorem ceilLog2_mono {a b : Nat} (h : a ≤ b) : ceilLog2 a ≤ ceilLog2 b :=
  ceilLog2_le_of_le_shiftLeft (Nat.le_trans h (le_shiftLeft_ceilLog2 b))

/-- No shards and one shard are the same. -/
theorem ceilLog2_max_one (n : Nat) : ceilLog2 (max n 1) = ceilLog2 n := by
  rcases Nat.eq_zero_or_pos n with rfl | hpos
  · rfl
  · rw [Nat.max_eq_left hpos]

namespace Router

/-! ## The number of shards -/

/-- The mask for a number of shards, as it is computed in words. -/
def mask? (shards : Nat) : Option Nat :=
  (Word.nextPowerOfTwo? (max shards 1)).bind (Word.sub? · 1)

/-- The number of shards, as it is computed in words. -/
def shardCount? (router : Router) : Option Nat := Word.add? router.mask 1

variable {shards : Nat}

/-- The number of shards is a word. -/
theorem shardCount_lt (hshards : shards ≤ 1 <<< 63) (seed : UInt64) :
    (ofShards shards seed).shardCount < Geometry.sizeLimit := by
  rw [shardCount_ofShards]
  have hle := one_shiftLeft_le (ceilLog2_le_of_le_shiftLeft hshards)
  exact Nat.lt_of_le_of_lt hle (by decide)

/-- Computing it in words is exact. -/
theorem shardCount?_ofShards (hshards : shards ≤ 1 <<< 63) (seed : UInt64) :
    (ofShards shards seed).shardCount? = some (ofShards shards seed).shardCount :=
  Word.add?_eq_some_iff.2 ⟨shardCount_lt hshards seed, rfl⟩

/-- Computing the mask in words is exact. -/
theorem mask?_eq (hshards : shards ≤ 1 <<< 63) (seed : UInt64) :
    mask? shards = some (ofShards shards seed).mask := by
  have hpower : Word.nextPowerOfTwo? (max shards 1) = some (1 <<< ceilLog2 shards) := by
    rw [Word.nextPowerOfTwo?, ceilLog2_max_one, word?_eq_some_iff, ← shardCount_ofShards _ seed]
    exact ⟨shardCount_lt hshards seed, rfl⟩
  have hpositive : 1 ≤ 1 <<< ceilLog2 shards := one_shiftLeft_le (Nat.zero_le _)
  rw [mask?, hpower, Option.bind_some, Word.sub?_of_le hpositive]
  rfl

/-- As many shards as were asked for and at least one, rounded up to a power of two. -/
theorem isLeast_shardCount (shards : Nat) (seed : UInt64) :
    IsLeast {n | max shards 1 ≤ n ∧ ∃ e, n = 1 <<< e} (ofShards shards seed).shardCount := by
  rw [shardCount_ofShards, ← ceilLog2_max_one]
  refine ⟨⟨le_shiftLeft_ceilLog2 _, _, rfl⟩, ?_⟩
  rintro _ ⟨hle, e, rfl⟩
  exact one_shiftLeft_le (ceilLog2_le_of_le_shiftLeft hle)

/-! ## The shard of a key -/

section Placing

variable {κ : Type} [RoutingKey κ] (hash : Bytes → UInt64)

/-- The shard of a key, as it is computed in words. -/
def placeWord (router : Router) (key : κ) : UInt64 :=
  hash (router.hashInput key) &&& router.mask.toUInt64

/-- Masking in words is masking. -/
theorem toNat_placeWord {router : Router} (hmask : router.mask < Geometry.sizeLimit) (key : κ) :
    (router.placeWord hash key).toNat = router.placeBy hash key := by
  rw [placeWord, UInt64.toNat_and, UInt64.toNat_ofNat_of_lt' hmask]
  rfl

/-- With fewer shards a key's shard is a part of what it is with more. -/
theorem placeBy_coarsen {fewer more : Nat} (hle : fewer ≤ more) (seed : UInt64) (key : κ) :
    (ofShards fewer seed).placeBy hash key
      = (ofShards more seed).placeBy hash key % (ofShards fewer seed).shardCount := by
  have hdvd : (ofShards fewer seed).shardCount ∣ (ofShards more seed).shardCount := by
    rw [shardCount_ofShards, shardCount_ofShards, Nat.one_shiftLeft, Nat.one_shiftLeft]
    exact Nat.pow_dvd_pow 2 (ceilLog2_mono hle)
  -- the hash is fed the same bytes, since these depend on the seed alone
  rw [placeBy_ofShards, placeBy_ofShards, Nat.mod_mod_of_dvd _ hdvd]
  rfl

end Placing

/-! ## What is hashed for a page -/

/-- What is hashed of a page: the seed, the length of what follows, and the bytes of the key. -/
theorem hashInput_pageKey (router : Router) (key : PageKey) :
    router.hashInput key
      = Bytes.littleEndian 8 router.seed.toNat ++ (Bytes.littleEndian 8 8 ++ key.toBytes) := by
  rw [← key.length_toBytes]
  rfl

/-- Different seeds or pages are hashed as different bytes. -/
theorem hashInput_pageKey_inj {router router' : Router} {key key' : PageKey} :
    router.hashInput key = router'.hashInput key' ↔ router.seed = router'.seed ∧ key = key' := by
  rw [hashInput_pageKey, hashInput_pageKey]
  refine ⟨fun h => ?_, ?_⟩
  · obtain ⟨hseed, hkey⟩ := List.append_inj h (by simp)
    have hnumber := Bytes.littleEndian_inj router.seed.toNat_lt router'.seed.toNat_lt hseed
    exact ⟨UInt64.toNat_inj.1 hnumber, PageKey.toBytes_injective (List.append_cancel_left hkey)⟩
  · rintro ⟨hseed, rfl⟩
    rw [hseed]

/-! ## Routing as a whole -/

/-- Whatever the hash does, routing loses nothing to the width of words, a key's shard is the
remainder of its hash modulo the least power of two of shards that will do, and a router with more
shards only refines one with fewer. Pages are told apart by what is hashed, and in every cache they
all have a bucket. -/
theorem places_in_range_and_tells_pages_apart {κ : Type} [RoutingKey κ] (hash : Bytes → UInt64) :
    (∀ (shards : Nat) (seed : UInt64), shards ≤ 1 <<< 63 →
      let router := ofShards shards seed
      mask? shards = some router.mask ∧
        router.shardCount? = some router.shardCount ∧
        IsLeast {n | max shards 1 ≤ n ∧ ∃ e, n = 1 <<< e} router.shardCount ∧
        ∀ key : κ,
          (router.placeWord hash key).toNat = router.placeBy hash key ∧
            router.placeBy hash key = (hash (router.hashInput key)).toNat % router.shardCount ∧
            router.placeBy hash key < router.shardCount) ∧
      (∀ (fewer more : Nat) (seed : UInt64) (key : κ), fewer ≤ more →
        (ofShards fewer seed).placeBy hash key
          = (ofShards more seed).placeBy hash key % (ofShards fewer seed).shardCount) ∧
      (∀ (router : Router) (key : PageKey),
        router.hashInput key
          = Bytes.littleEndian 8 router.seed.toNat ++ (Bytes.littleEndian 8 8 ++ key.toBytes)) ∧
      (∀ (router router' : Router) (key key' : PageKey),
        router.hashInput key = router'.hashInput key' ↔
          router.seed = router'.seed ∧ key = key') ∧
      ∀ (c : Cache) (key : PageKey),
        c.router.shardCount = c.buckets.toList.length ∧
          c.router.placeBy hash key < c.buckets.toList.length ∧
          c.buckets.toList[c.router.place key]? = some (c.bucket (c.shardOf key)) := by
  refine ⟨fun shards seed hshards => ?_, fun fewer more seed key hle => ?_, hashInput_pageKey,
    fun _ _ _ _ => hashInput_pageKey_inj, fun c key => ?_⟩
  · intro router
    have hmask : router.mask < Geometry.sizeLimit :=
      Nat.lt_of_succ_lt (shardCount_lt hshards seed)
    exact ⟨mask?_eq hshards seed, shardCount?_ofShards hshards seed, isLeast_shardCount shards seed,
      fun key => ⟨toNat_placeWord hash hmask key, placeBy_ofShards hash shards seed key,
        placeBy_lt_shardCount hash router key⟩⟩
  · exact placeBy_coarsen hash hle seed key
  · have hbuckets : c.router.shardCount = c.buckets.toList.length := by
      rw [Vector.length_toList, c.shardCount_router]
    refine ⟨hbuckets, hbuckets ▸ placeBy_lt_shardCount hash c.router key, ?_⟩
    rw [Vector.getElem?_toList]
    exact Vector.getElem?_eq_getElem (c.shardOf key).isLt

theorem places_five_shards :
    5 ≤ 1 <<< 63 ∧ 5 ≤ 64 ∧ mask? 5 = some 7 ∧ (ofShards 5 42).shardCount = 8 ∧
      ∀ key : PageKey, (ofShards 5 42).place key < 8 ∧
        (ofShards 5 42).place key = (ofShards 64 42).place key % 8 := by
  have hcount : (ofShards 5 42).shardCount = 8 := rfl
  obtain ⟨hrange, hcoarsen, -⟩ :=
    @places_in_range_and_tells_pages_apart PageKey _ SipHash.hash
  obtain ⟨hmask, -, -, hplace⟩ := hrange 5 42 (by decide)
  refine ⟨by decide, by decide, hmask, hcount, fun key => ⟨?_, ?_⟩⟩
  · exact hcount ▸ (hplace key).2.2
  · exact hcount ▸ hcoarsen 5 64 42 key (by decide)

end Router

end ReadThrough
