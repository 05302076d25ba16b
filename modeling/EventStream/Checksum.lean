import EventStream.Lib.CrcPolynomial
import EventStream.Slots

/-!
# The key hash

The module computes the check of a key itself, bit by bit in a register of sixteen bits. The server computes it byte by
byte from a table. Both are the remainder of the key by the polynomial of CRC-16/XMODEM.

* `crc16tab`, `crc16Table`: the server's table and its loop.
* `toPoly_crc16`: the register at the end is the remainder.
* `crcByte_split`: eight turns of the bit loop are one look into the table.
* `crc16_remainder`: the two loops and the remainder agree on every key.
-/

namespace EventStream

open Text (Bytes)
open Crc (toPoly)
open Polynomial (X)

/-! ## The server's loop -/

/-- What eight shifts make of each byte that falls out of the register. -/
def crc16tab : List (BitVec 16) :=
  [
    0x0000, 0x1021, 0x2042, 0x3063, 0x4084, 0x50a5, 0x60c6, 0x70e7, 0x8108, 0x9129, 0xa14a, 0xb16b,
    0xc18c, 0xd1ad, 0xe1ce, 0xf1ef, 0x1231, 0x0210, 0x3273, 0x2252, 0x52b5, 0x4294, 0x72f7, 0x62d6,
    0x9339, 0x8318, 0xb37b, 0xa35a, 0xd3bd, 0xc39c, 0xf3ff, 0xe3de, 0x2462, 0x3443, 0x0420, 0x1401,
    0x64e6, 0x74c7, 0x44a4, 0x5485, 0xa56a, 0xb54b, 0x8528, 0x9509, 0xe5ee, 0xf5cf, 0xc5ac, 0xd58d,
    0x3653, 0x2672, 0x1611, 0x0630, 0x76d7, 0x66f6, 0x5695, 0x46b4, 0xb75b, 0xa77a, 0x9719, 0x8738,
    0xf7df, 0xe7fe, 0xd79d, 0xc7bc, 0x48c4, 0x58e5, 0x6886, 0x78a7, 0x0840, 0x1861, 0x2802, 0x3823,
    0xc9cc, 0xd9ed, 0xe98e, 0xf9af, 0x8948, 0x9969, 0xa90a, 0xb92b, 0x5af5, 0x4ad4, 0x7ab7, 0x6a96,
    0x1a71, 0x0a50, 0x3a33, 0x2a12, 0xdbfd, 0xcbdc, 0xfbbf, 0xeb9e, 0x9b79, 0x8b58, 0xbb3b, 0xab1a,
    0x6ca6, 0x7c87, 0x4ce4, 0x5cc5, 0x2c22, 0x3c03, 0x0c60, 0x1c41, 0xedae, 0xfd8f, 0xcdec, 0xddcd,
    0xad2a, 0xbd0b, 0x8d68, 0x9d49, 0x7e97, 0x6eb6, 0x5ed5, 0x4ef4, 0x3e13, 0x2e32, 0x1e51, 0x0e70,
    0xff9f, 0xefbe, 0xdfdd, 0xcffc, 0xbf1b, 0xaf3a, 0x9f59, 0x8f78, 0x9188, 0x81a9, 0xb1ca, 0xa1eb,
    0xd10c, 0xc12d, 0xf14e, 0xe16f, 0x1080, 0x00a1, 0x30c2, 0x20e3, 0x5004, 0x4025, 0x7046, 0x6067,
    0x83b9, 0x9398, 0xa3fb, 0xb3da, 0xc33d, 0xd31c, 0xe37f, 0xf35e, 0x02b1, 0x1290, 0x22f3, 0x32d2,
    0x4235, 0x5214, 0x6277, 0x7256, 0xb5ea, 0xa5cb, 0x95a8, 0x8589, 0xf56e, 0xe54f, 0xd52c, 0xc50d,
    0x34e2, 0x24c3, 0x14a0, 0x0481, 0x7466, 0x6447, 0x5424, 0x4405, 0xa7db, 0xb7fa, 0x8799, 0x97b8,
    0xe75f, 0xf77e, 0xc71d, 0xd73c, 0x26d3, 0x36f2, 0x0691, 0x16b0, 0x6657, 0x7676, 0x4615, 0x5634,
    0xd94c, 0xc96d, 0xf90e, 0xe92f, 0x99c8, 0x89e9, 0xb98a, 0xa9ab, 0x5844, 0x4865, 0x7806, 0x6827,
    0x18c0, 0x08e1, 0x3882, 0x28a3, 0xcb7d, 0xdb5c, 0xeb3f, 0xfb1e, 0x8bf9, 0x9bd8, 0xabbb, 0xbb9a,
    0x4a75, 0x5a54, 0x6a37, 0x7a16, 0x0af1, 0x1ad0, 0x2ab3, 0x3a92, 0xfd2e, 0xed0f, 0xdd6c, 0xcd4d,
    0xbdaa, 0xad8b, 0x9de8, 0x8dc9, 0x7c26, 0x6c07, 0x5c64, 0x4c45, 0x3ca2, 0x2c83, 0x1ce0, 0x0cc1,
    0xef1f, 0xff3e, 0xcf5d, 0xdf7c, 0xaf9b, 0xbfba, 0x8fd9, 0x9ff8, 0x6e17, 0x7e36, 0x4e55, 0x5e74,
    0x2e93, 0x3eb2, 0x0ed1, 0x1ef0
  ]

/-- One byte of the server's loop. -/
def crc16TableStep (crc : BitVec 16) (byte : UInt8) : BitVec 16 :=
  (crc <<< 8) ^^^ crc16tab.getD (((crc >>> 8) ^^^ BitVec.ofNat 16 byte.toNat) &&& 0x00ff#16).toNat 0#16

def crc16Table (data : Bytes) : BitVec 16 := data.foldl crc16TableStep 0#16

/-! ## The remainder -/

/-- The data as one polynomial: its bits in order, the first one the highest coefficient. -/
noncomputable def dataPoly (data : Bytes) : Polynomial (ZMod 2) :=
  data.foldl (fun p byte => p * X ^ 8 + toPoly byte.toBitVec) 0

theorem dataPoly_eq (data : Bytes) : dataPoly data = Crc.message (data.map UInt8.toBitVec) := by
  rw [dataPoly, Crc.message, List.foldl_map]

/-- The polynomial of the check, with its leading term. -/
theorem generator_xmodem : Crc.generator 0x1021#16 = (X ^ 16 + X ^ 12 + X ^ 5 + 1 : Polynomial (ZMod 2)) := by
  have hlow : toPoly 0x1021#16 = (X ^ 12 + X ^ 5 + 1 : Polynomial (ZMod 2)) := by
    rw [toPoly]
    simp only [Finset.sum_range_succ, Finset.sum_range_zero]
    simp
    ring
  rw [Crc.generator, hlow]
  ring

theorem crcWord_eq (byte : UInt8) : crcWord byte = Crc.aligned 16 byte.toBitVec := by
  rw [crcWord, Crc.aligned, ← BitVec.ofNat_toNat]
  rfl

theorem toPoly_crc16 (data : Bytes) :
    toPoly (crc16 data) = (dataPoly data * X ^ 16) %ₘ (X ^ 16 + X ^ 12 + X ^ 5 + 1) := by
  have hwords : data.map crcWord = (data.map UInt8.toBitVec).map (Crc.aligned 16) := by
    rw [List.map_map]
    exact List.map_congr_left fun byte _ => crcWord_eq byte
  have hbyte : crcByte = (Crc.shiftBit 0x1021#16)^[8] := by rw [crcByte, crcBit_eq]
  rw [crc16_eq_feed, hwords, hbyte, Crc.toPoly_feed 0x1021#16 (by decide) (by decide), dataPoly_eq, generator_xmodem]

/-! ## The table -/

/-- Every row of the table is what the bit loop makes of its index. -/
theorem crc16tab_spec :
    (List.range 256).all (fun i => crc16tab.getD i 0#16 == crcByte (BitVec.ofNat 16 i <<< 8)) = true := by
  decide +kernel

theorem crc16tab_getD {i : Nat} (h : i < 256) : crc16tab.getD i 0#16 = crcByte (BitVec.ofNat 16 i <<< 8) := by
  have hall := List.all_eq_true.1 crc16tab_spec i (List.mem_range.2 h)
  exact eq_of_beq hall

/-- Eight turns of the bit loop: the register moves, and the byte that falls out is looked up. -/
theorem crcByte_split (c : BitVec 16) : crcByte c = (c <<< 8) ^^^ crc16tab.getD (c >>> 8).toNat 0#16 := by
  have hlt : (c >>> 8).toNat < 256 := by
    rw [BitVec.toNat_ushiftRight, Nat.shiftRight_eq_div_pow]
    have := c.isLt
    omega
  rw [crc16tab_getD hlt, BitVec.ofNat_toNat, BitVec.setWidth_eq, crcByte, crcBit_eq]
  exact Crc.iterate_shiftBit_split 0x1021#16 c 8

/-- A byte that was added to the highest bits is shifted out of the register. -/
theorem xor_crcWord_shiftLeft (crc : BitVec 16) (byte : UInt8) : (crc ^^^ crcWord byte) <<< 8 = crc <<< 8 := by
  have hout : crcWord byte <<< 8 = 0#16 := by
    rw [crcWord, ← BitVec.shiftLeft_add]
    exact BitVec.shiftLeft_eq_zero (by decide)
  rw [BitVec.shiftLeft_xor_distrib, hout, BitVec.xor_zero]

/-- The byte that falls out is the index the server computes. -/
theorem xor_crcWord_ushiftRight (crc : BitVec 16) (byte : UInt8) :
    (crc ^^^ crcWord byte) >>> 8 = ((crc >>> 8) ^^^ BitVec.ofNat 16 byte.toNat) &&& 0x00ff#16 := by
  have hmask : (0x00ff#16 : BitVec 16) = (BitVec.allOnes 8).setWidth 16 := by decide
  have hbyte : BitVec.ofNat 16 byte.toNat = byte.toBitVec.setWidth 16 := BitVec.ofNat_toNat 16 byte.toBitVec
  apply BitVec.eq_of_getLsbD_eq
  intro i _
  simp only [crcWord, hmask, hbyte, BitVec.getLsbD_ushiftRight, BitVec.getLsbD_xor, BitVec.getLsbD_and,
    BitVec.getLsbD_shiftLeft, BitVec.getLsbD_setWidth, BitVec.getLsbD_allOnes]
  by_cases hi : i < 8
  · simp [hi, show 8 + i < 16 by omega, show i < 16 by omega]
  · simp [hi, show ¬ 8 + i < 16 by omega, BitVec.getLsbD_of_ge crc (8 + i) (by omega)]

theorem crc16TableStep_eq (crc : BitVec 16) (byte : UInt8) :
    crc16TableStep crc byte = crcByte (crc ^^^ crcWord byte) := by
  rw [crcByte_split, xor_crcWord_shiftLeft, xor_crcWord_ushiftRight, crc16TableStep]

theorem crc16_eq_table (data : Bytes) : crc16 data = crc16Table data := by
  have hstep : crc16TableStep = fun crc byte => crcByte (crc ^^^ crcWord byte) := by
    funext crc byte
    exact crc16TableStep_eq crc byte
  rw [crc16Table, hstep]
  rfl

/-! ## The hash of every key -/

/-- **The check is the key hash of the server**: on every byte string the bit loop ends with the remainder of the data,
moved up by sixteen bits, modulo the generator of CRC-16/XMODEM, and with what the server's table gives. -/
theorem crc16_remainder (data : Bytes) :
    toPoly (crc16 data) = (dataPoly data * X ^ 16) %ₘ (X ^ 16 + X ^ 12 + X ^ 5 + 1) ∧ crc16 data = crc16Table data :=
  ⟨toPoly_crc16 data, crc16_eq_table data⟩

/-- The reference vector of the cluster specification, from the table. -/
example : crc16Table [49, 50, 51, 52, 53, 54, 55, 56, 57] = 0x31c3#16 := by decide +kernel

end EventStream
