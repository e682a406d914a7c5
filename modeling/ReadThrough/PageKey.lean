import ReadThrough.Bytes

/-!
# Page keys

A `PageKey` names one page of one object. Keys are ordered by object and then by page, and
`PageKey.toBytes` writes them in eight bytes from which they can be read back.
-/

namespace ReadThrough

/-- Page number `page` of the object `object`. -/
structure PageKey where
  object : UInt32
  page : UInt32
  deriving DecidableEq, Hashable

namespace PageKey

/-- The two numbers in little-endian order, the object first. -/
def toBytes (key : PageKey) : Bytes :=
  Bytes.littleEndian 4 key.object.toNat ++ Bytes.littleEndian 4 key.page.toNat

@[simp] theorem length_toBytes (key : PageKey) : key.toBytes.length = 8 := by
  simp [toBytes]

theorem toBytes_injective {a b : PageKey} (h : a.toBytes = b.toBytes) : a = b := by
  obtain ⟨hobject, hpage⟩ := List.append_inj h (by simp)
  have hobject' := Bytes.littleEndian_inj a.object.toNat_lt b.object.toNat_lt hobject
  have hpage' := Bytes.littleEndian_inj a.page.toNat_lt b.page.toNat_lt hpage
  cases a
  cases b
  simp only [mk.injEq]
  exact ⟨UInt32.toNat_inj.1 hobject', UInt32.toNat_inj.1 hpage'⟩

/-! ## Order -/

/-- Whether `a` comes no later than `b`: by object, then by page. -/
def precedes (a b : PageKey) : Bool :=
  a.object < b.object || (a.object == b.object && a.page ≤ b.page)

/-- The keys in ascending order. -/
def sort (keys : List PageKey) : List PageKey := keys.mergeSort precedes

/-- The number of different keys in the list. -/
def countDistinct (keys : List PageKey) : Nat := keys.eraseDups.length

end PageKey

end ReadThrough
