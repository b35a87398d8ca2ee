import Rkb.Library.Sha256

namespace Rkb.Library.Hmac

open Rkb.Library.Sha256

/-- The key as one block: a longer key is hashed first, and zeros fill up a shorter one. -/
def keyBlock (hash : List UInt8 → List UInt8) (blockSize : Nat) (key : List UInt8) : List UInt8 :=
  let key := if blockSize < key.length then hash key else key
  key ++ List.replicate (blockSize - key.length) 0

def hmac (hash : List UInt8 → List UInt8) (blockSize : Nat) (key text : List UInt8) : List UInt8 :=
  let block := keyBlock hash blockSize key
  hash (block.map (· ^^^ 0x5c) ++ hash (block.map (· ^^^ 0x36) ++ text))

theorem length_keyBlock {hash : List UInt8 → List UInt8} {blockSize : Nat}
    (hhash : ∀ data, (hash data).length ≤ blockSize) (key : List UInt8) :
    (keyBlock hash blockSize key).length = blockSize := by
  have hle : (if blockSize < key.length then hash key else key).length ≤ blockSize := by
    split
    · exact hhash key
    · omega
  rw [keyBlock, List.length_append, List.length_replicate]
  exact Nat.add_sub_of_le hle

example : (hmac (fun data => (sha256 data).bytes) 64 "Jefe".toUTF8.toList
    "what do ya want for nothing?".toUTF8.toList).take 8 =
      [0x5b, 0xdc, 0xc1, 0x46, 0xbf, 0x60, 0x75, 0x4e] := by
  decide +kernel

end Rkb.Library.Hmac
