import WrSwitch.Rtu.Types

/-! The hash of `rtu_hash.c`: a 16-bit CRC over the FID and the MAC address. -/
namespace WrSwitch.Rtu

/-- `rtu_hash_set_poly`: the value stored in `hash_poly`. -/
def rtuHashSetPoly (poly : BitVec 16) : Word := (0x10000 ||| poly.setWidth 32) <<< 3

/-- One turn of the loop of `crc16`. -/
def crc16Step (hashPoly remainder : Word) : Word :=
  (if remainder &&& 0x80000 ≠ 0 then remainder ^^^ hashPoly else remainder) <<< 1

def crc16 (hashPoly : Word) (initCrc message : BitVec 16) : BitVec 16 :=
  ((crc16Step hashPoly)^[20] ((message ^^^ initCrc).setWidth 32) >>> 4).setWidth 16

/-- `((uint16_t) hi << 8) | lo` -/
def macPair (hi lo : Byte) : BitVec 16 := hi.setWidth 16 <<< 8 ||| lo.setWidth 16

def rtuHash (hashPoly : Word) (mac : Mac) (fid : Byte) : Nat :=
  let hash := crc16 hashPoly 0xFFFF (0xFFFF &&& fid.setWidth 16)
  let hash := crc16 hashPoly hash (macPair mac.b0 mac.b1)
  let hash := crc16 hashPoly hash (macPair mac.b2 mac.b3)
  let hash := crc16 hashPoly hash (macPair mac.b4 mac.b5)
  hash.toNat &&& (htabEntries - 1)

/-- The mask of `rtu_hash` keeps the row inside the table, whatever the polynomial. -/
theorem rtuHash_lt (hashPoly : Word) (mac : Mac) (fid : Byte) :
    rtuHash hashPoly mac fid < htabEntries := by
  have masked := Nat.and_le_right (n := (crc16 hashPoly (crc16 hashPoly (crc16 hashPoly
    (crc16 hashPoly 0xFFFF (0xFFFF &&& fid.setWidth 16)) (macPair mac.b0 mac.b1))
    (macPair mac.b2 mac.b3)) (macPair mac.b4 mac.b5)).toNat) (m := htabEntries - 1)
  simp only [rtuHash, htabEntries_eq] at masked ⊢
  omega

end WrSwitch.Rtu
