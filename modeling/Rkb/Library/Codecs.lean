import Rkb.Library.Bytes

namespace Rkb.Library.Codecs

open Rkb.Library.Bytes

structure Codec (α : Type) where
  encode : α → List UInt8
  decode : List UInt8 → Option (α × List UInt8)
  decode_encode : ∀ a t, decode (encode a ++ t) = some (a, t)

variable {α β : Type} {n : Nat}

namespace Codec

theorem encode_append_inj (c : Codec α) {a b : α} {t u : List UInt8}
    (h : c.encode a ++ t = c.encode b ++ u) : a = b ∧ t = u := by
  have ha := c.decode_encode a t
  have hb := c.decode_encode b u
  rw [h, hb] at ha
  cases ha
  exact ⟨rfl, rfl⟩

theorem eq_of_encode_isPrefix (c : Codec α) {a b : α} (h : c.encode a <+: c.encode b) : a = b := by
  obtain ⟨t, ht⟩ := h
  have happend : c.encode a ++ t = c.encode b ++ [] := by
    rw [ht, List.append_nil]
  exact (c.encode_append_inj happend).1

def map (c : Codec α) (f : α → β) (g : β → α) (hfg : ∀ b, f (g b) = b) : Codec β where
  encode b := c.encode (g b)
  decode input := (c.decode input).map fun r => (f r.1, r.2)
  decode_encode := by
    intro b t
    rw [c.decode_encode, Option.map_some, hfg]

@[simp] theorem encode_map (c : Codec α) (f : α → β) (g : β → α) (hfg : ∀ b, f (g b) = b)
    (b : β) : (c.map f g hfg).encode b = c.encode (g b) := rfl

def pair (c : Codec α) (d : Codec β) : Codec (α × β) where
  encode p := c.encode p.1 ++ d.encode p.2
  decode input := do
    let (a, rest) ← c.decode input
    let (b, rest) ← d.decode rest
    return ((a, b), rest)
  decode_encode := by
    intro p t
    rw [List.append_assoc, c.decode_encode]
    simp only [Option.bind_eq_bind, Option.bind_some, d.decode_encode, Option.pure_def]

@[simp] theorem length_pair (c : Codec α) (d : Codec β) (p : α × β) :
    ((c.pair d).encode p).length = (c.encode p.1).length + (d.encode p.2).length :=
  List.length_append

def raw (n : Nat) : Codec (FixedBytes n) where
  encode a := a.bytes
  decode input := (FixedBytes.ofList (input.take n)).map fun a => (a, input.drop n)
  decode_encode := by
    intro a t
    rw [List.take_left' a.length_eq, FixedBytes.ofList_bytes, List.drop_left' a.length_eq]
    rfl

def u64 : Codec UInt64 where
  encode x := leBytes 8 x.toNat
  decode input := (FixedBytes.ofList (n := 8) (input.take 8)).map fun a =>
    (UInt64.ofNat (ofLeBytes a.bytes), input.drop 8)
  decode_encode := by
    intro x t
    have hlen : (leBytes 8 x.toNat).length = 8 := length_leBytes 8 x.toNat
    have hval : ofLeBytes (leBytes 8 x.toNat) = x.toNat := ofLeBytes_leBytes x.toNat_lt
    rw [List.take_left' hlen, List.drop_left' hlen, FixedBytes.ofList, dif_pos hlen]
    simp only [Option.map_some, hval, UInt64.ofNat_toNat]

@[simp] theorem length_u64 (x : UInt64) : (u64.encode x).length = 8 := length_leBytes 8 x.toNat

def decodeMany (c : Codec α) : Nat → List UInt8 → Option (List α × List UInt8)
  | 0, input => some ([], input)
  | k + 1, input => do
      let (a, rest) ← c.decode input
      let (as, rest) ← decodeMany c k rest
      return (a :: as, rest)

theorem decodeMany_flatMap (c : Codec α) (as : List α) (t : List UInt8) :
    c.decodeMany as.length (as.flatMap c.encode ++ t) = some (as, t) := by
  induction as with
  | nil => rfl
  | cons a as ih =>
      rw [List.length_cons, List.flatMap_cons, List.append_assoc, decodeMany, c.decode_encode]
      simp only [Option.bind_eq_bind, Option.bind_some, ih, Option.pure_def]

theorem length_decodeMany {c : Codec α} {k : Nat} {input rest : List UInt8} {as : List α}
    (h : c.decodeMany k input = some (as, rest)) : as.length = k := by
  induction k generalizing input rest as with
  | zero =>
      simp only [decodeMany, Option.some.injEq, Prod.mk.injEq] at h
      rw [← h.1]
      rfl
  | succ k ih =>
      simp only [decodeMany, Option.bind_eq_bind, Option.bind_eq_some_iff, Option.pure_def,
        Option.some.injEq, Prod.mk.injEq, Prod.exists] at h
      obtain ⟨a, rest₁, -, as', rest₂, hmany, rfl, -⟩ := h
      rw [List.length_cons, ih hmany]

def vec (c : Codec α) : Codec (Vec α) where
  encode v := u64.encode (UInt64.ofNat v.toList.length) ++ v.toList.flatMap c.encode
  decode input :=
    match u64.decode input with
    | none => none
    | some (k, rest) =>
        match h : c.decodeMany k.toNat rest with
        | none => none
        | some (as, rest) => some (⟨as, length_decodeMany h ▸ k.toNat_lt⟩, rest)
  decode_encode := by
    intro v t
    have hlen : (UInt64.ofNat v.toList.length).toNat = v.toList.length :=
      UInt64.toNat_ofNat_of_lt' v.length_lt
    rw [List.append_assoc, u64.decode_encode]
    have hmany := decodeMany_flatMap c v.toList t
    rw [← hlen] at hmany
    simp only
    split
    · rename_i h
      rw [hmany] at h
      cases h
    · rename_i as rest h
      rw [hmany] at h
      cases h
      rfl

@[simp] theorem length_vec (c : Codec α) (v : Vec α) :
    ((vec c).encode v).length = 8 + (v.toList.map fun a => (c.encode a).length).sum := by
  show (u64.encode _ ++ v.toList.flatMap c.encode).length = _
  rw [List.length_append, length_u64, List.length_flatMap]

def byte : Codec UInt8 where
  encode b := [b]
  decode
    | [] => none
    | b :: rest => some (b, rest)
  decode_encode := fun _ _ => rfl

theorem length_vec_byte (v : Vec UInt8) : ((vec byte).encode v).length = 8 + v.toList.length := by
  rw [length_vec]
  show 8 + (v.toList.map fun _ => 1).sum = _
  rw [List.map_const', List.sum_replicate_nat, Nat.mul_one]

def asciiBytes (cs : List Char) : List UInt8 := cs.map fun c => UInt8.ofNat c.toNat

def asciiChars (bs : List UInt8) : List Char := bs.map fun b => Char.ofNat b.toNat

theorem asciiChars_hexEncode (bs : List UInt8) :
    asciiChars (asciiBytes (hexEncode bs)) = hexEncode bs := by
  have hdigit : ∀ d < 16, Char.ofNat (UInt8.ofNat (hexDigit d).toNat).toNat = hexDigit d := by
    decide
  induction bs with
  | nil => rfl
  | cons b bs ih =>
      have hb : b.toNat < 256 := b.toNat_lt
      change Char.ofNat (UInt8.ofNat (hexDigit (b.toNat / 16)).toNat).toNat ::
        Char.ofNat (UInt8.ofNat (hexDigit (b.toNat % 16)).toNat).toNat ::
          asciiChars (asciiBytes (hexEncode bs)) = _ :: _ :: hexEncode bs
      rw [ih, hdigit _ (by omega), hdigit _ (by omega)]

/-- A byte string of one fixed length, spelled with its length in front. -/
def sized (n : Nat) (hn : n < 2 ^ 64) : Codec (FixedBytes n) where
  encode a := (vec byte).encode ⟨a.bytes, by rw [a.length_eq]; exact hn⟩
  decode input := do
    let (v, rest) ← (vec byte).decode input
    let a ← FixedBytes.ofList v.toList
    return (a, rest)
  decode_encode := by
    intro a t
    rw [(vec byte).decode_encode]
    simp only [Option.bind_eq_bind, Option.bind_some, FixedBytes.ofList_bytes, Option.pure_def]

theorem length_sized (hn : n < 2 ^ 64) (a : FixedBytes n) :
    ((sized n hn).encode a).length = 8 + n := by
  show ((vec byte).encode ⟨a.bytes, _⟩).length = _
  rw [length_vec_byte, a.length_eq]

theorem length_hexEncode (bs : List UInt8) :
    (asciiBytes (hexEncode bs)).length = 2 * bs.length := by
  rw [asciiBytes, List.length_map]
  induction bs with
  | nil => rfl
  | cons b bs ih =>
      change (hexEncode bs).length + 1 + 1 = _
      rw [ih, List.length_cons]
      omega

def hexString (n : Nat) (hn : 2 * n < 2 ^ 64) : Codec (FixedBytes n) where
  encode a := (vec byte).encode
    ⟨asciiBytes (hexEncode a.bytes), by rw [length_hexEncode, a.length_eq]; exact hn⟩
  decode input := do
    let (v, rest) ← (vec byte).decode input
    let bs ← hexDecode (asciiChars v.toList)
    let a ← FixedBytes.ofList bs
    return (a, rest)
  decode_encode := by
    intro a t
    rw [(vec byte).decode_encode]
    simp only [Option.bind_eq_bind, Option.bind_some, asciiChars_hexEncode,
      hexDecode_hexEncode, FixedBytes.ofList_bytes, Option.pure_def]

@[simp] theorem length_hexString (hn : 2 * n < 2 ^ 64) (a : FixedBytes n) :
    ((hexString n hn).encode a).length = 8 + 2 * n := by
  show ((vec byte).encode ⟨asciiBytes (hexEncode a.bytes), _⟩).length = _
  rw [length_vec_byte, length_hexEncode, a.length_eq]

end Codec

end Rkb.Library.Codecs
