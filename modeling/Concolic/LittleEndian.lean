/-! # Numbers as little-endian bytes

Buffers hold numbers as their base-256 digits, lowest first. `toBytes` and `ofBytes` are inverse on
numbers that fit and on lists of the right length; the fixed-width words used by buffers (32-bit and
64-bit signed words, 32-bit text units) are read and written through them. -/

namespace Concolic
namespace LittleEndian

/-! ## Natural numbers -/

/-- The lowest `width` base-256 digits of a number, lowest first. -/
def toBytes : (width : Nat) → (n : Nat) → List UInt8
  | 0, _ => []
  | width + 1, n => UInt8.ofNat n :: toBytes width (n / 256)

/-- The number whose base-256 digits, lowest first, are the given bytes. -/
def ofBytes : List UInt8 → Nat
  | [] => 0
  | b :: bs => b.toNat + 256 * ofBytes bs

/-- The number of numbers with so many digits. -/
def values : (width : Nat) → Nat
  | 0 => 1
  | width + 1 => 256 * values width

/-- `(toBytes width n).length = width`. -/
@[simp] theorem length_toBytes (width n : Nat) : (toBytes width n).length = width := by
  induction width generalizing n with
  | zero => rfl
  | succ width ih => simp [toBytes, ih]

/-- `ofBytes (toBytes width n) = n % values width`: only what does not fit is lost. -/
theorem ofBytes_toBytes (width n : Nat) : ofBytes (toBytes width n) = n % values width := by
  induction width generalizing n with
  | zero => simp [toBytes, ofBytes, values, Nat.mod_one]
  | succ width ih =>
    have hdigit : (UInt8.ofNat n).toNat = n % 256 := UInt8.toNat_ofNat'
    rw [toBytes, ofBytes, ih, hdigit, values, Nat.mod_mul]

/-- `toBytes bs.length (ofBytes bs) = bs`: bytes are the digits of the number they spell. -/
theorem toBytes_ofBytes (bs : List UInt8) : toBytes bs.length (ofBytes bs) = bs := by
  induction bs with
  | nil => rfl
  | cons b bs ih =>
    have hb := b.toNat_lt
    have hdigit : UInt8.ofNat (b.toNat + 256 * ofBytes bs) = b := by
      apply UInt8.toNat_inj.1
      simp only [UInt8.toNat_ofNat']
      omega
    have hrest : (b.toNat + 256 * ofBytes bs) / 256 = ofBytes bs := by omega
    simp only [List.length_cons, toBytes, ofBytes, hdigit, hrest, ih]

/-- `ofBytes bs < values bs.length`. -/
theorem ofBytes_lt (bs : List UInt8) : ofBytes bs < values bs.length := by
  induction bs with
  | nil => simp [ofBytes, values]
  | cons b bs ih =>
    have hb := b.toNat_lt
    simp only [ofBytes, List.length_cons, values]
    omega

/-! ## Signed words -/

/-- The four bytes of a 32-bit word. -/
def ofInt32 (n : Int32) : List UInt8 := toBytes 4 n.toUInt32.toNat

/-- The 32-bit word that the bytes spell. -/
def toInt32 (bs : List UInt8) : Int32 := (UInt32.ofNat (ofBytes bs)).toInt32

/-- The eight bytes of a 64-bit word. -/
def ofInt64 (n : Int64) : List UInt8 := toBytes 8 n.toUInt64.toNat

/-- The 64-bit word that the bytes spell. -/
def toInt64 (bs : List UInt8) : Int64 := (UInt64.ofNat (ofBytes bs)).toInt64

@[simp] theorem length_ofInt32 (n : Int32) : (ofInt32 n).length = 4 := length_toBytes ..

@[simp] theorem length_ofInt64 (n : Int64) : (ofInt64 n).length = 8 := length_toBytes ..

/-- `toInt32` inverts `ofInt32`. -/
@[simp] theorem toInt32_ofInt32 (n : Int32) : toInt32 (ofInt32 n) = n := by
  have h : n.toUInt32.toNat % values 4 = n.toUInt32.toNat := Nat.mod_eq_of_lt n.toUInt32.toNat_lt
  simp only [toInt32, ofInt32, ofBytes_toBytes, h, UInt32.ofNat_toNat, Int32.toInt32_toUInt32]

/-- `toInt64` inverts `ofInt64`. -/
@[simp] theorem toInt64_ofInt64 (n : Int64) : toInt64 (ofInt64 n) = n := by
  have h : n.toUInt64.toNat % values 8 = n.toUInt64.toNat := Nat.mod_eq_of_lt n.toUInt64.toNat_lt
  simp only [toInt64, ofInt64, ofBytes_toBytes, h, UInt64.ofNat_toNat, Int64.toInt64_toUInt64]

/-- On four bytes `ofInt32` inverts `toInt32`. -/
theorem ofInt32_toInt32 {bs : List UInt8} (h : bs.length = 4) : ofInt32 (toInt32 bs) = bs := by
  have hlt : ofBytes bs < UInt32.size := by
    have := ofBytes_lt bs
    rw [h] at this
    exact this
  have hread : (UInt32.ofNat (ofBytes bs)).toInt32.toUInt32.toNat = ofBytes bs :=
    Nat.mod_eq_of_lt hlt
  rw [ofInt32, toInt32, hread, ← h, toBytes_ofBytes]

/-- On eight bytes `ofInt64` inverts `toInt64`. -/
theorem ofInt64_toInt64 {bs : List UInt8} (h : bs.length = 8) : ofInt64 (toInt64 bs) = bs := by
  have hlt : ofBytes bs < UInt64.size := by
    have := ofBytes_lt bs
    rw [h] at this
    exact this
  have hread : (UInt64.ofNat (ofBytes bs)).toInt64.toUInt64.toNat = ofBytes bs :=
    Nat.mod_eq_of_lt hlt
  rw [ofInt64, toInt64, hread, ← h, toBytes_ofBytes]

/-! ## Wide text units -/

/-- The bytes of text units, four for each. -/
def ofUnits (units : List UInt32) : List UInt8 := units.flatMap fun u => toBytes 4 u.toNat

/-- The text units that the bytes spell; one to three bytes left over at the end are dropped. -/
def toUnits : List UInt8 → List UInt32
  | a :: b :: c :: d :: bs => UInt32.ofNat (ofBytes [a, b, c, d]) :: toUnits bs
  | _ => []

@[simp] theorem length_ofUnits (units : List UInt32) :
    (ofUnits units).length = 4 * units.length := by
  induction units with
  | nil => rfl
  | cons u units ih =>
    simp only [ofUnits, List.flatMap_cons, List.length_append, length_toBytes, List.length_cons]
    rw [ofUnits] at ih
    omega

/-- `toUnits` inverts `ofUnits`. -/
@[simp] theorem toUnits_ofUnits (units : List UInt32) : toUnits (ofUnits units) = units := by
  induction units with
  | nil => rfl
  | cons u units ih =>
    have h : u.toNat % values 4 = u.toNat := Nat.mod_eq_of_lt u.toNat_lt
    have hread := ofBytes_toBytes 4 u.toNat
    rw [h] at hread
    simp only [toBytes] at hread
    rw [ofUnits] at ih ⊢
    rw [List.flatMap_cons]
    generalize List.flatMap (fun u => toBytes 4 u.toNat) units = rest at ih ⊢
    simp only [toBytes, List.cons_append, List.nil_append, toUnits, hread, UInt32.ofNat_toNat, ih]

/-- On a multiple of four bytes `ofUnits` inverts `toUnits`. -/
theorem ofUnits_toUnits (bs : List UInt8) (h : bs.length % 4 = 0) : ofUnits (toUnits bs) = bs := by
  fun_induction toUnits bs with
  | case1 a b c d bs ih =>
    have hlt : ofBytes [a, b, c, d] < values 4 := ofBytes_lt [a, b, c, d]
    have hnat : (UInt32.ofNat (ofBytes [a, b, c, d])).toNat = ofBytes [a, b, c, d] :=
      Nat.mod_eq_of_lt hlt
    have hrest : bs.length % 4 = 0 := by
      simp only [List.length_cons] at h
      omega
    have ih := ih hrest
    rw [ofUnits] at ih ⊢
    rw [List.flatMap_cons, ih, hnat, show (4 : Nat) = [a, b, c, d].length from rfl,
      toBytes_ofBytes]
    rfl
  | case2 bs hshort =>
    match bs, hshort with
    | [], _ => rfl
    | [_], _ => simp at h
    | [_, _], _ => simp at h
    | [_, _, _], _ => simp at h
    | a :: b :: c :: d :: bs, hshort => exact absurd rfl (hshort a b c d bs)

end LittleEndian
end Concolic
