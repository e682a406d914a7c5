import ReadThrough.PageKey
import ReadThrough.Rounding
import ReadThrough.SipHash

/-!
# Routing keys to shards

A `Router` spreads keys over a power of two of shards: it hashes its seed followed by the bytes of
the key and keeps the low bits. `Router.placeBy` is stated for any hash function, since nothing
about the range of the answer depends on which one it is; `Router.place` uses `SipHash.hash`. The
bytes of a key come from its `RoutingKey` instance.
-/

namespace ReadThrough

/-! ## Keys as bytes -/

/-- Keys that can be routed: those with a byte string to hash. -/
class RoutingKey (κ : Type) where
  /-- The bytes of a key that are fed to the hash. -/
  hashBytes : κ → Bytes

namespace RoutingKey

instance : RoutingKey UInt8 := ⟨fun n => Bytes.littleEndian 1 n.toNat⟩
instance : RoutingKey UInt16 := ⟨fun n => Bytes.littleEndian 2 n.toNat⟩
instance : RoutingKey UInt32 := ⟨fun n => Bytes.littleEndian 4 n.toNat⟩
instance : RoutingKey UInt64 := ⟨fun n => Bytes.littleEndian 8 n.toNat⟩
instance : RoutingKey Int64 := ⟨fun n => Bytes.littleEndian 8 n.toUInt64.toNat⟩

/-- The encoded text and a byte that no encoded text contains. -/
instance : RoutingKey String := ⟨fun text => text.toUTF8.toList ++ [0xff]⟩

/-- The length in eight bytes and then the bytes. -/
instance : RoutingKey Bytes := ⟨fun bytes => Bytes.littleEndian 8 bytes.length ++ bytes⟩

/-- The bytes of the members in order. -/
instance {α β : Type} [RoutingKey α] [RoutingKey β] : RoutingKey (α × β) :=
  ⟨fun pair => hashBytes pair.1 ++ hashBytes pair.2⟩

/-- A page key is routed as the byte string of its encoding. -/
instance : RoutingKey PageKey := ⟨fun key => hashBytes key.toBytes⟩

end RoutingKey

/-! ## Routers -/

/-- A seeded choice among `mask + 1` shards. -/
structure Router where
  mask : Nat
  seed : UInt64
  deriving DecidableEq

namespace Router

/-- A router over the least power of two of shards that is at least `shards` and at least one. -/
def ofShards (shards : Nat) (seed : UInt64) : Router :=
  ⟨1 <<< ceilLog2 shards - 1, seed⟩

/-- The router that sends every key to the same shard. -/
def single : Router := ofShards 1 0

/-- The number of shards. -/
def shardCount (router : Router) : Nat := router.mask + 1

@[simp] theorem shardCount_ofShards (shards : Nat) (seed : UInt64) :
    (ofShards shards seed).shardCount = 1 <<< ceilLog2 shards := by
  simp only [shardCount, ofShards, Nat.one_shiftLeft]
  exact Nat.sub_add_cancel Nat.one_le_two_pow

variable {κ : Type} [RoutingKey κ]

/-- What is hashed to place a key: the seed in eight bytes and then the key. -/
def hashInput (router : Router) (key : κ) : Bytes :=
  Bytes.littleEndian 8 router.seed.toNat ++ RoutingKey.hashBytes key

/-- The shard of a key when `hash` is the hash function. -/
def placeBy (hash : Bytes → UInt64) (router : Router) (key : κ) : Nat :=
  (hash (router.hashInput key)).toNat &&& router.mask

/-- The shard of a key. -/
def place (router : Router) (key : κ) : Nat := router.placeBy SipHash.hash key

theorem placeBy_lt_shardCount (hash : Bytes → UInt64) (router : Router) (key : κ) :
    router.placeBy hash key < router.shardCount :=
  Nat.lt_succ_of_le Nat.and_le_right

/-- Keeping the low bits is taking the remainder modulo the number of shards. -/
theorem placeBy_ofShards (hash : Bytes → UInt64) (shards : Nat) (seed : UInt64) (key : κ) :
    (ofShards shards seed).placeBy hash key
      = (hash ((ofShards shards seed).hashInput key)).toNat
        % (ofShards shards seed).shardCount := by
  rw [shardCount_ofShards]
  simp only [placeBy, ofShards, Nat.one_shiftLeft]
  exact Nat.and_two_pow_sub_one_eq_mod _ _

theorem place_lt_shardCount (router : Router) (key : κ) : router.place key < router.shardCount :=
  placeBy_lt_shardCount SipHash.hash router key

end Router

end ReadThrough
