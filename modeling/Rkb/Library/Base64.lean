import Mathlib.Algebra.Ring.Nat
import Mathlib.Data.List.Basic

/-!
The URL-safe base64 of RFC 4648, section 5, without padding. The bytes are read as one string
of bits, most significant first, and its groups of six bits, the last one filled up with
zeros, are the characters. The decoder accepts nothing else.
-/

namespace Rkb.Library.Base64

def bits : (w : Nat) → (x : Nat) → List Bool
  | 0, _ => []
  | w + 1, x => x.testBit w :: bits w x

@[simp] theorem length_bits (w x : Nat) : (bits w x).length = w := by
  induction w with
  | zero => rfl
  | succ w ih => simp [bits, ih]

def ofBits : List Bool → Nat
  | [] => 0
  | b :: bs => b.toNat * 2 ^ bs.length + ofBits bs

theorem ofBits_lt (bs : List Bool) : ofBits bs < 2 ^ bs.length := by
  induction bs with
  | nil => exact Nat.one_pos
  | cons b bs ih =>
      rw [ofBits, List.length_cons, Nat.pow_succ, Nat.mul_two]
      cases b with
      | false =>
          rw [Bool.toNat_false, Nat.zero_mul]
          omega
      | true =>
          rw [Bool.toNat_true, Nat.one_mul]
          omega

theorem ofBits_bits (w x : Nat) : ofBits (bits w x) = x % 2 ^ w := by
  induction w with
  | zero => exact (Nat.mod_one x).symm
  | succ w ih =>
      rw [bits, ofBits, ih, length_bits, Nat.toNat_testBit, Nat.mod_pow_succ, Nat.mul_comm,
        Nat.add_comm]

theorem bits_mod {w n : Nat} (h : w ≤ n) (x : Nat) : bits w (x % 2 ^ n) = bits w x := by
  induction w with
  | zero => rfl
  | succ w ih =>
      have hbit : (x % 2 ^ n).testBit w = x.testBit w := by
        rw [Nat.testBit_mod_two_pow, decide_eq_true (Nat.lt_of_succ_le h), Bool.true_and]
      rw [bits, bits, ih (Nat.le_of_succ_le h), hbit]

theorem bits_ofBits (bs : List Bool) : bits bs.length (ofBits bs) = bs := by
  induction bs with
  | nil => rfl
  | cons b bs ih =>
      have hlt := ofBits_lt bs
      have hbit : (b.toNat * 2 ^ bs.length + ofBits bs).testBit bs.length = b := by
        rw [Nat.mul_comm, Nat.testBit_two_pow_mul_add _ hlt, if_neg (Nat.lt_irrefl _), Nat.sub_self]
        cases b <;> rfl
      have hlow : (b.toNat * 2 ^ bs.length + ofBits bs) % 2 ^ bs.length = ofBits bs := by
        rw [Nat.mul_comm, Nat.mul_add_mod, Nat.mod_eq_of_lt hlt]
      rw [ofBits, List.length_cons, bits, hbit, ← bits_mod (Nat.le_refl _), hlow, ih]

def cut (w : Nat) : (k : Nat) → List Bool → List Nat
  | 0, _ => []
  | k + 1, bs => ofBits (bs.take w) :: cut w k (bs.drop w)

@[simp] theorem length_cut (w k : Nat) (bs : List Bool) : (cut w k bs).length = k := by
  induction k generalizing bs with
  | zero => rfl
  | succ k ih => simp [cut, ih]

theorem lt_of_mem_cut {w k : Nat} {bs : List Bool} {x : Nat} (hx : x ∈ cut w k bs) :
    x < 2 ^ w := by
  induction k generalizing bs with
  | zero => cases hx
  | succ k ih =>
      rcases List.mem_cons.mp hx with rfl | hx
      · apply Nat.lt_of_lt_of_le (ofBits_lt _)
        exact Nat.pow_le_pow_right Nat.two_pos (List.length_take_le w bs)
      · exact ih hx

theorem flatMap_cut {w k : Nat} {bs : List Bool} (hlength : bs.length = w * k) :
    (cut w k bs).flatMap (bits w) = bs := by
  induction k generalizing bs with
  | zero => exact (List.length_eq_zero_iff.mp hlength).symm
  | succ k ih =>
      have htake : (bs.take w).length = w := by
        rw [List.length_take, hlength, Nat.mul_succ]
        omega
      have hdrop : (bs.drop w).length = w * k := by
        rw [List.length_drop, hlength, Nat.mul_succ]
        omega
      have hgroup := bits_ofBits (bs.take w)
      rw [htake] at hgroup
      rw [cut, List.flatMap_cons, hgroup, ih hdrop, List.take_append_drop]

theorem cut_flatMap (w : Nat) (xs : List Nat) (rest : List Bool) :
    cut w xs.length (xs.flatMap (bits w) ++ rest) = xs.map (· % 2 ^ w) := by
  induction xs with
  | nil => rfl
  | cons x xs ih =>
      rw [List.flatMap_cons, List.append_assoc, List.length_cons, cut,
        List.take_left' (length_bits w x), List.drop_left' (length_bits w x), ih, ofBits_bits]
      rfl

def symbol (x : Nat) : Char :=
  if x < 26 then Char.ofNat ('A'.toNat + x)
  else if x < 52 then Char.ofNat ('a'.toNat + (x - 26))
  else if x < 62 then Char.ofNat ('0'.toNat + (x - 52))
  else if x = 62 then '-'
  else '_'

def value (c : Char) : Option Nat :=
  if 'A' ≤ c ∧ c ≤ 'Z' then some (c.toNat - 'A'.toNat)
  else if 'a' ≤ c ∧ c ≤ 'z' then some (26 + (c.toNat - 'a'.toNat))
  else if '0' ≤ c ∧ c ≤ '9' then some (52 + (c.toNat - '0'.toNat))
  else if c = '-' then some 62
  else if c = '_' then some 63
  else none

theorem value_symbol {x : Nat} (hx : x < 64) : value (symbol x) = some x := by
  revert x
  decide

def bitString (data : List UInt8) : List Bool := data.flatMap fun b => bits 8 b.toNat

@[simp] theorem length_bitString (data : List UInt8) :
    (bitString data).length = 8 * data.length := by
  induction data with
  | nil => rfl
  | cons b data ih =>
      rw [bitString, List.flatMap_cons, List.length_append, length_bits, List.length_cons]
      rw [bitString] at ih
      rw [ih, Nat.mul_succ, Nat.add_comm]

def encode (data : List UInt8) : List Char :=
  let count := (8 * data.length + 5) / 6
  let fill := 6 * count - 8 * data.length
  (cut 6 count (bitString data ++ List.replicate fill false)).map symbol

def values : List Char → Option (List Nat)
  | [] => some []
  | c :: cs => do
      let x ← value c
      let xs ← values cs
      return x :: xs

/-- Fewer than six bits may follow the last byte, all of them zeros. -/
def decode (text : List Char) : Option (List UInt8) :=
  match values text with
  | none => none
  | some xs =>
      let string := xs.flatMap (bits 6)
      let count := string.length / 8
      let rest := string.drop (8 * count)
      if rest.length < 6 ∧ true ∉ rest then some ((cut 8 count string).map UInt8.ofNat) else none

theorem values_map_symbol {xs : List Nat} (hxs : ∀ x ∈ xs, x < 64) :
    values (xs.map symbol) = some xs := by
  induction xs with
  | nil => rfl
  | cons x xs ih =>
      rw [List.forall_mem_cons] at hxs
      rw [List.map_cons, values, value_symbol hxs.1, ih hxs.2]
      rfl

theorem length_encode (data : List UInt8) : (encode data).length = (8 * data.length + 5) / 6 := by
  rw [encode, List.length_map, length_cut]

theorem value_of_mem_encode {data : List UInt8} {c : Char} (hc : c ∈ encode data) :
    (value c).isSome = true := by
  obtain ⟨x, hx, rfl⟩ := List.mem_map.mp hc
  rw [value_symbol (lt_of_mem_cut hx)]
  rfl

theorem cut_bitString (data : List UInt8) (rest : List Bool) :
    (cut 8 data.length (bitString data ++ rest)).map UInt8.ofNat = data := by
  have hbytes := cut_flatMap 8 (data.map UInt8.toNat) rest
  rw [List.length_map, List.flatMap_map] at hbytes
  rw [bitString, hbytes, List.map_map, List.map_map]
  refine (List.map_congr_left fun b _ => ?_).trans (List.map_id data)
  show UInt8.ofNat (b.toNat % 2 ^ 8) = b
  rw [Nat.mod_eq_of_lt b.toNat_lt, UInt8.ofNat_toNat]

theorem decode_encode (data : List UInt8) : decode (encode data) = some data := by
  obtain ⟨count, hcount⟩ : ∃ count, count = (8 * data.length + 5) / 6 := ⟨_, rfl⟩
  obtain ⟨fill, hfill⟩ : ∃ fill, fill = 6 * count - 8 * data.length := ⟨_, rfl⟩
  have hlength : (bitString data ++ List.replicate fill false).length = 6 * count := by
    rw [List.length_append, length_bitString, List.length_replicate]
    omega
  have hvalues : values (encode data) =
      some (cut 6 count (bitString data ++ List.replicate fill false)) := by
    rw [encode, ← hcount, ← hfill]
    exact values_map_symbol fun x hx => lt_of_mem_cut hx
  have hbytes : 6 * count / 8 = data.length := by
    omega
  have hrest : (bitString data ++ List.replicate fill false).drop (8 * data.length) =
      List.replicate fill false := List.drop_left' (length_bitString data)
  have hzeros : (List.replicate fill false).length < 6 ∧ true ∉ List.replicate fill false := by
    constructor
    · rw [List.length_replicate]
      omega
    · intro htrue
      cases List.eq_of_mem_replicate htrue
  rw [decode, hvalues]
  dsimp only
  rw [flatMap_cut hlength, hlength, hbytes, hrest, if_pos hzeros, cut_bitString]

example : String.ofList (encode "hello".toUTF8.toList) = "aGVsbG8" := by
  decide +kernel

section Groups

theorem bits_add (n m x : Nat) : bits (n + m) x = bits n (x / 2 ^ m) ++ bits m x := by
  induction n with
  | zero => rw [Nat.zero_add]; rfl
  | succ n ih =>
      rw [Nat.succ_add, bits, ih, bits, Nat.testBit_div_two_pow]
      rfl

theorem ofBits_append (bs bs' : List Bool) :
    ofBits (bs ++ bs') = ofBits bs * 2 ^ bs'.length + ofBits bs' := by
  induction bs with
  | nil => rw [List.nil_append, ofBits, Nat.zero_mul, Nat.zero_add]
  | cons b bs ih =>
      rw [List.cons_append, ofBits, ofBits, ih, List.length_append, Nat.pow_add, Nat.add_mul,
        Nat.mul_assoc, Nat.add_assoc]

theorem cut_append {w k : Nat} {group : List Bool} (hgroup : group.length = w)
    (rest : List Bool) : cut w (k + 1) (group ++ rest) = ofBits group :: cut w k rest := by
  rw [cut, List.take_left' hgroup, List.drop_left' hgroup]

variable {x y z : Nat}

/-- A group that begins in one number and ends in the next. -/
theorem cut_shared {w n m : Nat} (k : Nat) (rest : List Bool) (hw : n + m = w)
    (hy : y < 2 ^ m) : cut w (k + 1) (bits n x ++ (bits m y ++ rest)) =
      (x % 2 ^ n * 2 ^ m + y) :: cut w k rest := by
  have hgroup : (bits n x ++ bits m y).length = w := by
    rw [List.length_append, length_bits, length_bits, hw]
  rw [← List.append_assoc, cut_append hgroup, ofBits_append, ofBits_bits, ofBits_bits, length_bits,
    Nat.mod_eq_of_lt hy]

theorem cut_one (k : Nat) (rest : List Bool) (hx : x < 256) :
    cut 6 (k + 1) (bits 8 x ++ rest) = x / 4 :: cut 6 k (bits 2 x ++ rest) := by
  rw [bits_add 6 2, List.append_assoc, cut_append (length_bits 6 _), ofBits_bits,
    Nat.mod_eq_of_lt (show x / 2 ^ 2 < 2 ^ 6 by omega)]
  rfl

theorem cut_two (k : Nat) (rest : List Bool) (hx : x < 256) (hy : y < 256) :
    cut 6 (k + 2) (bits 8 x ++ (bits 8 y ++ rest)) =
      x / 4 :: (x % 4 * 16 + y / 16) :: cut 6 k (bits 4 y ++ rest) := by
  have hhigh : y / 2 ^ 4 < 2 ^ 4 := by
    omega
  rw [cut_one _ _ hx, bits_add 4 4, List.append_assoc, cut_shared k _ rfl hhigh]
  rfl

theorem cut_three (k : Nat) (rest : List Bool) (hx : x < 256) (hy : y < 256) (hz : z < 256) :
    cut 6 (k + 4) (bits 8 x ++ (bits 8 y ++ (bits 8 z ++ rest))) =
      [x / 4, x % 4 * 16 + y / 16, y % 16 * 4 + z / 64, z % 64] ++ cut 6 k rest := by
  have hhigh : z / 2 ^ 6 < 2 ^ 2 := by
    omega
  rw [cut_two _ _ hx hy, bits_add 2 6, List.append_assoc, cut_shared (k + 1) _ rfl hhigh,
    cut_append (length_bits 6 z), ofBits_bits]
  rfl

end Groups

section Steps

variable (x y z : UInt8) (data : List UInt8)

theorem encode_one : encode [x] = [x.toNat / 4, x.toNat % 4 * 16].map symbol := by
  have hcount : (8 * [x].length + 5) / 6 = 2 := by
    rw [List.length_singleton]
  have hfill : 6 * 2 - 8 * [x].length = 4 := by
    rw [List.length_singleton]
  have hstring : bitString [x] = bits 8 x.toNat := List.append_nil _
  have hlast : ofBits (bits 2 x.toNat ++ List.replicate 4 false) = x.toNat % 4 * 16 := by
    rw [ofBits_append, ofBits_bits]
    rfl
  rw [encode, hcount, hfill, hstring, cut_one _ _ x.toNat_lt, cut,
    List.take_of_length_le (Nat.le_refl 6), hlast]
  rfl

theorem encode_two : encode [x, y] =
    [x.toNat / 4, x.toNat % 4 * 16 + y.toNat / 16, y.toNat % 16 * 4].map symbol := by
  have hcount : (8 * [x, y].length + 5) / 6 = 3 := by
    rw [List.length_cons, List.length_singleton]
  have hfill : 6 * 3 - 8 * [x, y].length = 2 := by
    rw [List.length_cons, List.length_singleton]
  have hstring : bitString [x, y] = bits 8 x.toNat ++ bits 8 y.toNat :=
    congrArg (_ ++ ·) (List.append_nil _)
  have hlast : ofBits (bits 4 y.toNat ++ List.replicate 2 false) = y.toNat % 16 * 4 := by
    rw [ofBits_append, ofBits_bits]
    rfl
  rw [encode, hcount, hfill, hstring, List.append_assoc, cut_two _ _ x.toNat_lt y.toNat_lt, cut,
    List.take_of_length_le (Nat.le_refl 6), hlast]
  rfl

theorem encode_three : encode (x :: y :: z :: data) =
    [x.toNat / 4, x.toNat % 4 * 16 + y.toNat / 16, y.toNat % 16 * 4 + z.toNat / 64,
      z.toNat % 64].map symbol ++ encode data := by
  have hcount : (8 * (x :: y :: z :: data).length + 5) / 6 = (8 * data.length + 5) / 6 + 4 := by
    simp only [List.length_cons]
    omega
  have hfill : 6 * ((8 * data.length + 5) / 6 + 4) - 8 * (x :: y :: z :: data).length =
      6 * ((8 * data.length + 5) / 6) - 8 * data.length := by
    simp only [List.length_cons]
    omega
  have hstring : ∀ rest, bitString (x :: y :: z :: data) ++ rest =
      bits 8 x.toNat ++ (bits 8 y.toNat ++ (bits 8 z.toNat ++ (bitString data ++ rest))) := by
    intro rest
    simp only [bitString, List.flatMap_cons, List.append_assoc]
  rw [encode, hcount, hfill, hstring, cut_three _ _ x.toNat_lt y.toNat_lt z.toNat_lt,
    List.map_append]
  rfl

end Steps

end Rkb.Library.Base64
