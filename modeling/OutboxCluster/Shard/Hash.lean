/-!
# Routing Hash

The hash that routes an event is the 32-bit cyclic redundancy check of its
key: the reflected polynomial `0xEDB88320`, a register that starts with all
bits set, and a complement at the end. The register is advanced bit by bit;
a table of bytes would be faster and no easier to reason about, and keys are
short.

## Main definitions

* `bitStep`: The register after one bit.
* `routingHash`: The hash of a key, taken over its UTF-8 bytes.
-/

namespace OutboxCluster

namespace Hash

/-- The register after one bit: shifted down, and reduced by the polynomial
    when the bit that fell out was set. -/
def bitStep (register : UInt32) : UInt32 :=
  if register &&& 1 = 1 then (register >>> 1) ^^^ 0xEDB88320 else register >>> 1

/-- The register after `n` bits. -/
def bitSteps : Nat → UInt32 → UInt32
  | 0, register => register
  | n + 1, register => bitSteps n (bitStep register)

/-- The register after one byte. -/
def byteStep (register : UInt32) (byte : UInt8) : UInt32 :=
  bitSteps 8 (register ^^^ byte.toUInt32)

/-- The check of a sequence of bytes. -/
def checksum (bytes : List UInt8) : UInt32 :=
  bytes.foldl byteStep 0xFFFFFFFF ^^^ 0xFFFFFFFF

end Hash

/-- The hash that routes an event with this key. -/
def routingHash (key : String) : UInt32 :=
  Hash.checksum key.toUTF8.toList

example : routingHash "" = 0 := by
  decide +kernel

end OutboxCluster
