import ReadThrough.Bytes
import ReadThrough.Counters
import ReadThrough.Eviction
import ReadThrough.PageKey

/-!
# Buckets

A `Bucket` owns a fixed number of page slots. At any moment a slot is free, or bound to one page by
the eviction policy, or held by whoever acquired it and has neither installed nor released it yet.
`Bucket.acquire` hands out a slot before its page is fetched, `Bucket.install` publishes the fetched
bytes, `Bucket.release` gives the slot back without them, and `Bucket.read` copies from a resident
page.
-/

namespace ReadThrough

/-- The number of a page slot within its bucket. -/
abbrev Slot := Nat

/-- A fixed number of page slots under an eviction policy `ι`. -/
structure Bucket (ι : Type) where
  /-- Pages have `2 ^ pageShift` bytes. -/
  pageShift : Nat
  /-- The number of slots. -/
  capacity : Nat
  /-- The bytes last stored in each slot; zeros follow up to the page size. -/
  pages : Array Bytes
  /-- The free slots, the next to be handed out first. -/
  free : List Slot
  /-- The slot of each resident page. -/
  index : ι
  counters : Counters

/-- What a lookup found. -/
inductive Lookup where
  /-- The page is resident and these bytes of it were asked for. -/
  | hit (bytes : Bytes)
  /-- The page is not resident. -/
  | miss
  /-- The page is resident, but the read starts past its end. -/
  | pastPage
  deriving DecidableEq

/-- What became of the wish for a slot. -/
inductive Grant where
  /-- A slot that was free. -/
  | free (slot : Slot)
  /-- The slot of a page that was given up for it. -/
  | reclaimed (slot : Slot) (victim : PageKey)
  /-- All slots are held by others. -/
  | exhausted
  deriving DecidableEq

/-- The slot that was handed out, if one was. -/
def Grant.slot? : Grant → Option Slot
  | free slot => some slot
  | reclaimed slot _ => some slot
  | exhausted => none

namespace Bucket

variable {ι : Type}

/-- A bucket of free slots whose pages are zero; `index` must have no bindings. -/
def ofCapacity (capacity pageShift : Nat) (index : ι) : Bucket ι where
  pageShift := pageShift
  capacity := capacity
  pages := Array.replicate capacity []
  free := List.range capacity
  index := index
  counters := {}

/-- The bytes of one page. -/
def pageSize (b : Bucket ι) : Nat := 1 <<< b.pageShift

/-- The `count` bytes from `offset` on of the page in a slot. -/
def pageBytes (b : Bucket ι) (slot : Slot) (offset count : Nat) : Bytes :=
  Bytes.window (b.pages.getD slot []) offset count

/-- The number of free slots. -/
def freeCount (b : Bucket ι) : Nat := b.free.length

/-- The bucket with one more event counted. -/
def record (b : Bucket ι) (event : Counters.Event) : Bucket ι :=
  { b with counters := b.counters.record event }

/-- Gives a slot back that was acquired and will not be installed. -/
def release (b : Bucket ι) (slot : Slot) : Bucket ι :=
  { b with free := slot :: b.free }.record .free

variable [EvictionPolicy ι PageKey Slot]

/-- The number of resident pages. -/
def residentCount (b : Bucket ι) : Nat := EvictionPolicy.size b.index

/-- Up to `count` bytes from `offset` on of the page of `key`, if it is resident. The policy learns
of the use before the offset is looked at. -/
def read (b : Bucket ι) (key : PageKey) (offset count : Nat) : Lookup × Bucket ι :=
  match EvictionPolicy.lookup b.index key with
  | (none, index) => (.miss, { b with index }.record (.lookup false))
  | (some slot, index) =>
    if b.pageSize < offset then (.pastPage, { b with index })
    else
      (.hit (b.pageBytes slot offset (min count (b.pageSize - offset))),
        { b with index }.record (.lookup true))

/-- Hands out a slot for a page about to be fetched: the free one on top if there is one, else the
slot of the page that the policy gives up. -/
def acquire (b : Bucket ι) : Grant × Bucket ι :=
  match b.free with
  | slot :: free => (.free slot, { b with free }.record .allocation)
  | [] =>
    match EvictionPolicy.evict b.index with
    | (some (victim, slot), index) =>
      (.reclaimed slot victim, { b with index }.record .eviction)
    | (none, index) => (.exhausted, { b with index })

/-- Stores the bytes of a page, cut to the page size, into an acquired slot and publishes it under
`key`. When the key was bound already, its former slot becomes free and is given as the result. -/
def install (b : Bucket ι) (key : PageKey) (slot : Slot) (data : Bytes) :
    Option Slot × Bucket ι :=
  let pages := b.pages.setIfInBounds slot (data.take b.pageSize)
  match EvictionPolicy.insert b.index key slot with
  | (some former, index) =>
    (some former, ({ b with pages, index }.release former).record .insert)
  | (none, index) => (none, { b with pages, index }.record .insert)

end Bucket

end ReadThrough
