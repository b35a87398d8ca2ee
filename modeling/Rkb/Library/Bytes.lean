import Mathlib.Algebra.Ring.Nat
import Mathlib.Data.List.Basic

namespace Rkb.Library.Bytes

structure FixedBytes (n : Nat) where
  bytes : List UInt8
  length_eq : bytes.length = n
deriving DecidableEq

/-- A growable array; its length is a 64-bit `usize`. -/
structure Vec (α : Type) where
  toList : List α
  length_lt : toList.length < 2 ^ 64
deriving DecidableEq

namespace FixedBytes

variable {n : Nat}

def repeatByte (b : UInt8) : FixedBytes n := ⟨List.replicate n b, List.length_replicate⟩

def zero : FixedBytes n := repeatByte 0

def ofList (bs : List UInt8) : Option (FixedBytes n) :=
  if h : bs.length = n then some ⟨bs, h⟩ else none

theorem ofList_bytes (a : FixedBytes n) : ofList a.bytes = some a :=
  dif_pos a.length_eq

end FixedBytes

namespace Vec

variable {α β : Type}

def empty : Vec α := ⟨[], Nat.two_pow_pos 64⟩

def map (f : α → β) (v : Vec α) : Vec β :=
  ⟨v.toList.map f, by rw [List.length_map]; exact v.length_lt⟩

theorem ext_toList {v w : Vec α} (h : v.toList = w.toList) : v = w := by
  cases v
  cases w
  cases h
  rfl

theorem map_map {γ : Type} (f : α → β) (g : β → γ) (v : Vec α) :
    (v.map f).map g = v.map (g ∘ f) :=
  ext_toList List.map_map

theorem map_id (v : Vec α) : v.map id = v :=
  ext_toList (List.map_id v.toList)

end Vec

def leBytes : Nat → Nat → List UInt8
  | 0, _ => []
  | w + 1, x => UInt8.ofNat x :: leBytes w (x / 256)

def ofLeBytes : List UInt8 → Nat
  | [] => 0
  | b :: bs => b.toNat + 256 * ofLeBytes bs

@[simp] theorem length_leBytes (w x : Nat) : (leBytes w x).length = w := by
  induction w generalizing x with
  | zero => rfl
  | succ w ih => simp [leBytes, ih]

theorem ofLeBytes_leBytes {w x : Nat} (hx : x < 256 ^ w) : ofLeBytes (leBytes w x) = x := by
  induction w generalizing x with
  | zero =>
      have hzero : x = 0 := by simpa using hx
      rw [hzero]
      rfl
  | succ w ih =>
      have hdiv : x / 256 < 256 ^ w := by
        rw [Nat.div_lt_iff_lt_mul (by decide), ← Nat.pow_succ]
        exact hx
      rw [leBytes, ofLeBytes, ih hdiv]
      have hlow : (UInt8.ofNat x).toNat = x % 256 := UInt8.toNat_ofNat'
      rw [hlow]
      omega

def hexDigit (d : Nat) : Char :=
  if d < 10 then Char.ofNat (48 + d) else Char.ofNat (87 + d)

def hexValue (c : Char) : Option Nat :=
  if '0' ≤ c ∧ c ≤ '9' then some (c.toNat - 48)
  else if 'a' ≤ c ∧ c ≤ 'f' then some (c.toNat - 87)
  else if 'A' ≤ c ∧ c ≤ 'F' then some (c.toNat - 55)
  else none

def hexEncode (bs : List UInt8) : List Char :=
  bs.flatMap fun b => [hexDigit (b.toNat / 16), hexDigit (b.toNat % 16)]

def hexDecode : List Char → Option (List UInt8)
  | [] => some []
  | [_] => none
  | c :: c' :: cs =>
      match hexValue c, hexValue c', hexDecode cs with
      | some hi, some lo, some bs => some (UInt8.ofNat (16 * hi + lo) :: bs)
      | _, _, _ => none

theorem hexValue_hexDigit {d : Nat} (hd : d < 16) : hexValue (hexDigit d) = some d := by
  revert d
  decide

theorem hexDecode_hexEncode (bs : List UInt8) : hexDecode (hexEncode bs) = some bs := by
  induction bs with
  | nil => rfl
  | cons b bs ih =>
      have hb : b.toNat < 256 := b.toNat_lt
      change hexDecode (hexDigit (b.toNat / 16) :: hexDigit (b.toNat % 16) :: hexEncode bs) = _
      rw [hexDecode, hexValue_hexDigit (by omega), hexValue_hexDigit (by omega), ih]
      have hbyte : 16 * (b.toNat / 16) + b.toNat % 16 = b.toNat := Nat.div_add_mod b.toNat 16
      simp only [hbyte, UInt8.ofNat_toNat]

end Rkb.Library.Bytes
