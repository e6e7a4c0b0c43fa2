/-!
# The checksum CRC-32

The cyclic redundancy check of the polynomial `0xEDB88320` (bits reversed), which starts and ends
with all bits inverted.

* `Crc32.shift` is one bit of it, `Crc32.step` one byte, `crc32` a whole text.
* `update_append`: the checksum of a text can be taken in parts.
-/

namespace RecordStore

namespace Crc32

/-- One bit. -/
def shift (r : UInt32) : UInt32 :=
  if r &&& 1 = 1 then (r >>> 1) ^^^ 0xEDB88320 else r >>> 1

/-- One byte. -/
def step (r : UInt32) (b : UInt8) : UInt32 :=
  let r := r ^^^ b.toUInt32
  shift (shift (shift (shift (shift (shift (shift (shift r)))))))

/-- Some bytes in turn. -/
def update (r : UInt32) (bytes : List UInt8) : UInt32 := bytes.foldl step r

theorem update_append (r : UInt32) (xs ys : List UInt8) :
    update r (xs ++ ys) = update (update r xs) ys :=
  List.foldl_append

end Crc32

/-- The checksum of some bytes. -/
def crc32 (bytes : List UInt8) : UInt32 :=
  Crc32.update 0xFFFFFFFF bytes ^^^ 0xFFFFFFFF

end RecordStore
