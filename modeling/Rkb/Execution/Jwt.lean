import Rkb.Library.Base64
import Rkb.Library.Hmac
import Rkb.Library.Sha256
import Rkb.Node.Effects

/-!
The tokens that authenticate the node at the Engine API. The SHA-256 function is a parameter,
and so is the text of `const_hex`'s errors.
-/

namespace Rkb.Execution.Jwt

open Rkb.Library
open Rkb.Library.Bytes
open Rkb.Library.Program
open Rkb.Node.Effects

def hmacBlockSize : Nat := 64

def alphabet : List Char :=
  "ABCDEFGHIJKLMNOPQRSTUVWXYZabcdefghijklmnopqrstuvwxyz0123456789-_".toList

def groupIndices (b0 b1 b2 : Nat) : Nat × Nat × Nat × Nat :=
  (b0 >>> 2, ((b0 &&& 0x03) <<< 4) ||| (b1 >>> 4), ((b1 &&& 0x0f) <<< 2) ||| (b2 >>> 6),
    b2 &&& 0x3f)

/-- Push one character of the alphabet; `none` where the index panics. -/
def pushIndex (result : String) (index : Nat) : Option String :=
  (alphabet[index]?).map result.push

/-- The third and the fourth character are pushed only where their byte is there. -/
def pushIndexIf (present : Bool) (result : String) (index : Nat) : Option String :=
  if present then pushIndex result index else some result

def base64urlEncodeLoop (data : List UInt8) (i : Nat) (result : String) : Option String :=
  if h : i < data.length then do
    let b0 := data[i].toNat
    let b1 := (data[i + 1]?.getD 0).toNat
    let b2 := (data[i + 2]?.getD 0).toNat
    let (index0, index1, index2, index3) := groupIndices b0 b1 b2
    let result ← pushIndex result index0
    let result ← pushIndex result index1
    let result ← pushIndexIf (i + 1 < data.length) result index2
    let result ← pushIndexIf (i + 2 < data.length) result index3
    base64urlEncodeLoop data (i + 3) result
  else some result
termination_by data.length - i

def base64urlEncode (data : List UInt8) : Option String := base64urlEncodeLoop data 0 ""

/-- `block[..src.len()].copy_from_slice(src)`. -/
def copyFromSlice (block src : List UInt8) : List UInt8 := src ++ block.drop src.length

def xorKeyBlock (padding keyBlock : List UInt8) : List UInt8 :=
  keyBlock.zipIdx.foldl (fun padding e => padding.modify e.2 (· ^^^ e.1)) padding

def trimStartMatches : List Char → List Char
  | '0' :: 'x' :: text => trimStartMatches text
  | text => text

def header : String := "\x7b\"alg\":\"HS256\",\"typ\":\"JWT\"\x7d"

def payload (now : UInt64) : String := "\x7b\"iat\":" ++ toString now ++ "\x7d"

section Token

variable (sha256 : List UInt8 → FixedBytes 32)

def hmacSha256 (key message : List UInt8) : FixedBytes 32 :=
  let keyBlock := List.replicate hmacBlockSize 0
  let keyBlock :=
    if hmacBlockSize < key.length then copyFromSlice keyBlock (sha256 key).bytes
    else copyFromSlice keyBlock key
  let inner := xorKeyBlock (List.replicate hmacBlockSize 0x36) keyBlock
  let outer := xorKeyBlock (List.replicate hmacBlockSize 0x5c) keyBlock
  let innerHash := sha256 (inner ++ message)
  sha256 (outer ++ innerHash.bytes)

def base64urlEncoded (data : List UInt8) : NodeProg String :=
  match base64urlEncode data with
  | none => panicWith "index out of bounds"
  | some text => return text

variable (hexError : List Char → String)

def buildToken (secretHex : String) : NodeProg (Except String String) :=
  let trimmed := trimStartMatches secretHex.toList
  match hexDecode trimmed with
  | none => return .error ("invalid hex: " ++ hexError trimmed)
  | some secretBytes => do
      if secretBytes.length ≠ 32 then
        return .error ("JWT secret must be 32 bytes, got " ++ toString secretBytes.length)
      else
        let now : UInt64 ← op .now
        let headerB64 ← base64urlEncoded header.toUTF8.toList
        let payloadB64 ← base64urlEncoded (payload now).toUTF8.toList
        let message := headerB64 ++ "." ++ payloadB64
        let signature := hmacSha256 sha256 secretBytes message.toUTF8.toList
        let signatureB64 ← base64urlEncoded signature.bytes
        return .ok (message ++ "." ++ signatureB64)

end Token

section Encoding

variable {data : List UInt8} {i : Nat} {result : String}

theorem alphabet_symbol : ∀ index < 64, alphabet[index]? = some (Base64.symbol index) := by
  decide +kernel

theorem pushIndex_eq {index : Nat} (h : index < 64) :
    pushIndex result index = some (result.push (Base64.symbol index)) := by
  rw [pushIndex, alphabet_symbol index h]
  rfl

theorem groupIndices_eq {b0 b1 b2 : Nat} (h1 : b1 < 256) (h2 : b2 < 256) :
    groupIndices b0 b1 b2 =
      (b0 / 4, b0 % 4 * 16 + b1 / 16, b1 % 16 * 4 + b2 / 64, b2 % 64) := by
  have hjoin : ∀ (a b k : Nat), b < 2 ^ k → (a <<< k) ||| b = a * 2 ^ k + b := by
    intro a b k hb
    rw [← Nat.shiftLeft_add_eq_or_of_lt hb, Nat.shiftLeft_eq]
  have hhigh0 : b0 >>> 2 = b0 / 4 := Nat.shiftRight_eq_div_pow b0 2
  have hhigh1 : b1 >>> 4 = b1 / 16 := Nat.shiftRight_eq_div_pow b1 4
  have hhigh2 : b2 >>> 6 = b2 / 64 := Nat.shiftRight_eq_div_pow b2 6
  have hlow0 : b0 &&& 0x03 = b0 % 4 := Nat.and_two_pow_sub_one_eq_mod b0 2
  have hlow1 : b1 &&& 0x0f = b1 % 16 := Nat.and_two_pow_sub_one_eq_mod b1 4
  have hlow2 : b2 &&& 0x3f = b2 % 64 := Nat.and_two_pow_sub_one_eq_mod b2 6
  rw [groupIndices, hlow0, hlow1, hlow2, hhigh0, hhigh1, hhigh2,
    hjoin _ _ 4 (show b1 / 16 < 2 ^ 4 by omega), hjoin _ _ 2 (show b2 / 64 < 2 ^ 2 by omega)]
  rfl

theorem pushIndexIf_eq {present : Bool} {index : Nat} (h : index < 64) :
    ∃ result', pushIndexIf present result index = some result' ∧
      result'.toList = result.toList ++ if present then [Base64.symbol index] else [] := by
  cases present with
  | false => exact ⟨result, rfl, (List.append_nil _).symm⟩
  | true => exact ⟨_, pushIndex_eq h, String.toList_push _⟩

def byteAt (data : List UInt8) (i : Nat) : Nat := (data[i]?.getD 0).toNat

def groupChars (data : List UInt8) (i : Nat) : List Char :=
  let b0 := byteAt data i
  let b1 := byteAt data (i + 1)
  let b2 := byteAt data (i + 2)
  [b0 / 4, b0 % 4 * 16 + b1 / 16].map Base64.symbol ++
    (if i + 1 < data.length then [Base64.symbol (b1 % 16 * 4 + b2 / 64)] else []) ++
    (if i + 2 < data.length then [Base64.symbol (b2 % 64)] else [])

theorem base64urlEncodeLoop_turn (h : i < data.length) :
    ∃ result', result'.toList = result.toList ++ groupChars data i ∧
      base64urlEncodeLoop data i result = base64urlEncodeLoop data (i + 3) result' := by
  have hb0 : byteAt data i < 256 := UInt8.toNat_lt _
  have hb1 : byteAt data (i + 1) < 256 := UInt8.toNat_lt _
  have hb2 : byteAt data (i + 2) < 256 := UInt8.toNat_lt _
  have hfirst : data[i].toNat = byteAt data i := by
    rw [byteAt, List.getElem?_eq_getElem h]
    rfl
  have hindices : groupIndices data[i].toNat (data[i + 1]?.getD 0).toNat
      (data[i + 2]?.getD 0).toNat = _ := (groupIndices_eq hb1 hb2).trans (by rw [hfirst])
  obtain ⟨result₂, hthird, htext₂⟩ := @pushIndexIf_eq
    ((result.push (Base64.symbol (byteAt data i / 4))).push
      (Base64.symbol (byteAt data i % 4 * 16 + byteAt data (i + 1) / 16)))
    (i + 1 < data.length) (byteAt data (i + 1) % 16 * 4 + byteAt data (i + 2) / 64) (by omega)
  obtain ⟨result₃, hfourth, htext₃⟩ := @pushIndexIf_eq result₂ (i + 2 < data.length)
    (byteAt data (i + 2) % 64) (by omega)
  refine ⟨result₃, ?_, ?_⟩
  · rw [htext₃, htext₂]
    simp [groupChars]
  · rw [base64urlEncodeLoop, dif_pos h]
    dsimp only
    rw [hindices]
    dsimp only
    rw [pushIndex_eq (by omega)]
    dsimp only [Option.bind_eq_bind, Option.bind_some]
    rw [pushIndex_eq (by omega)]
    dsimp only [Option.bind_eq_bind, Option.bind_some]
    rw [hthird]
    dsimp only [Option.bind_eq_bind, Option.bind_some]
    rw [hfourth]
    rfl

theorem groupChars_drop (data : List UInt8) (i : Nat) :
    groupChars data i = groupChars (data.drop i) 0 := by
  have hbyte : ∀ j, byteAt (data.drop i) j = byteAt data (i + j) := by
    intro j
    rw [byteAt, List.getElem?_drop]
    rfl
  have hlength : ∀ j, j < (data.drop i).length ↔ i + j < data.length := by
    intro j
    rw [List.length_drop]
    omega
  simp only [groupChars, hbyte, hlength, Nat.add_zero, Nat.zero_add]

theorem encode_eq_groupChars (hdata : data ≠ []) :
    Base64.encode data = groupChars data 0 ++ Base64.encode (data.drop 3) := by
  have hnil : Base64.encode [] = [] := rfl
  rcases data with _ | ⟨x, _ | ⟨y, _ | ⟨z, data⟩⟩⟩
  · exact absurd rfl hdata
  · rw [Base64.encode_one]
    simp [groupChars, byteAt, hnil]
  · rw [Base64.encode_two]
    simp [groupChars, byteAt, hnil]
  · rw [Base64.encode_three]
    simp [groupChars, byteAt]

theorem base64urlEncodeLoop_eq (data : List UInt8) (i : Nat) (result : String) :
    ∃ text, base64urlEncodeLoop data i result = some text ∧
      text.toList = result.toList ++ Base64.encode (data.drop i) := by
  induction hleft : data.length - i using Nat.strong_induction_on generalizing i result with
  | _ left ih =>
      by_cases h : i < data.length
      · obtain ⟨result', hpushed, hturn⟩ := @base64urlEncodeLoop_turn data i result h
        obtain ⟨text, htext, hchars⟩ := ih (data.length - (i + 3)) (by omega) (i + 3) result' rfl
        have hsuffix : data.drop i ≠ [] := by
          intro hnil
          rw [List.drop_eq_nil_iff] at hnil
          omega
        refine ⟨text, hturn.trans htext, ?_⟩
        rw [hchars, hpushed, groupChars_drop, encode_eq_groupChars hsuffix, List.drop_drop,
          List.append_assoc]
      · refine ⟨result, ?_, ?_⟩
        · rw [base64urlEncodeLoop, dif_neg h]
        · rw [List.drop_of_length_le (Nat.le_of_not_lt h)]
          exact (List.append_nil _).symm

theorem exists_base64urlEncode (data : List UInt8) :
    ∃ text, base64urlEncode data = some text ∧ text.toList = Base64.encode data :=
  base64urlEncodeLoop_eq data 0 ""

theorem notMem_encode {c : Char} (hc : Base64.value c = none) : c ∉ Base64.encode data := by
  intro hmem
  have hvalue := Base64.value_of_mem_encode hmem
  rw [hc] at hvalue
  cases hvalue

theorem mem_alphabet {c : Char} (hc : c ∈ Base64.encode data) : c ∈ alphabet := by
  obtain ⟨index, hindex, rfl⟩ := List.mem_map.mp hc
  exact List.mem_of_getElem? (alphabet_symbol index (Base64.lt_of_mem_cut hindex))

/-- `base64url_encode` terminates without an index out of bounds, and its result is the
unpadded encoding of RFC 4648. -/
theorem base64urlEncode_correct (data : List UInt8) :
    (∃ text, base64urlEncode data = some text ∧ text.toList = Base64.encode data ∧
      Base64.decode text.toList = some data ∧ text.length = (8 * data.length + 5) / 6 ∧
      (∀ c ∈ text.toList, c ∈ alphabet) ∧ '.' ∉ text.toList ∧ '=' ∉ text.toList) ∧
    ∀ b0 b1 b2 : UInt8,
      (groupIndices b0.toNat b1.toNat b2.toNat).1 < 64 ∧
        (groupIndices b0.toNat b1.toNat b2.toNat).2.1 < 64 ∧
        (groupIndices b0.toNat b1.toNat b2.toNat).2.2.1 < 64 ∧
        (groupIndices b0.toNat b1.toNat b2.toNat).2.2.2 < 64 := by
  constructor
  · obtain ⟨text, htext, hchars⟩ := exists_base64urlEncode data
    refine ⟨text, htext, hchars, ?_⟩
    rw [hchars, ← String.length_toList, hchars, Base64.length_encode]
    refine ⟨Base64.decode_encode data, rfl, fun c hc => mem_alphabet hc, ?_, ?_⟩
    · exact notMem_encode rfl
    · exact notMem_encode rfl
  · intro b0 b1 b2
    have h0 := b0.toNat_lt
    have h1 := b1.toNat_lt
    have h2 := b2.toNat_lt
    rw [groupIndices_eq h1 h2]
    dsimp only
    omega

end Encoding

section Hmac

variable {sha256 : List UInt8 → FixedBytes 32}

theorem modify_append (done rest : List UInt8) (c : UInt8) (f : UInt8 → UInt8) :
    (done ++ c :: rest).modify done.length f = done ++ f c :: rest := by
  induction done with
  | nil => rfl
  | cons d done ih => rw [List.cons_append, List.length_cons, List.modify_succ_cons, ih]; rfl

theorem xorKeyBlock_eq (keyBlock : List UInt8) (c : UInt8) :
    xorKeyBlock (List.replicate keyBlock.length c) keyBlock = keyBlock.map (· ^^^ c) := by
  have hloop : ∀ done : List UInt8, (keyBlock.zipIdx done.length).foldl
      (fun padding e => padding.modify e.2 (· ^^^ e.1))
      (done ++ List.replicate keyBlock.length c) = done ++ keyBlock.map (· ^^^ c) := by
    induction keyBlock with
    | nil => exact fun done => rfl
    | cons b keyBlock ih =>
        intro done
        have hrest := ih (done ++ [c ^^^ b])
        rw [List.length_append, List.length_singleton, List.append_assoc] at hrest
        rw [List.zipIdx_cons, List.foldl_cons, List.length_cons, List.replicate_succ,
          modify_append]
        refine hrest.trans ?_
        rw [List.append_assoc, UInt8.xor_comm c b]
        rfl
  exact hloop []

theorem copyFromSlice_zeros (n : Nat) (src : List UInt8) :
    copyFromSlice (List.replicate n 0) src = src ++ List.replicate (n - src.length) 0 := by
  rw [copyFromSlice, List.drop_replicate]

theorem hmacSha256_eq (key message : List UInt8) : (hmacSha256 sha256 key message).bytes =
    Hmac.hmac (fun data => (sha256 data).bytes) 64 key message := by
  have hhash : ∀ data, (sha256 data).bytes.length ≤ 64 := by
    intro data
    rw [(sha256 data).length_eq]
    decide
  have hlength := Hmac.length_keyBlock hhash key
  have hblock : (if 64 < key.length then copyFromSlice (List.replicate 64 0) (sha256 key).bytes
      else copyFromSlice (List.replicate 64 0) key) =
      Hmac.keyBlock (fun data => (sha256 data).bytes) 64 key := by
    rw [copyFromSlice_zeros, copyFromSlice_zeros, Hmac.keyBlock]
    by_cases hlong : 64 < key.length
    · rw [if_pos hlong, if_pos hlong]
    · rw [if_neg hlong, if_neg hlong]
  have hpad := fun c => xorKeyBlock_eq (Hmac.keyBlock (fun data => (sha256 data).bytes) 64 key) c
  rw [hlength] at hpad
  rw [hmacSha256, hmacBlockSize, hblock, hpad, hpad]
  rfl

end Hmac

section Tokens

variable {sha256 : List UInt8 → FixedBytes 32} {hexError : List Char → String}

theorem exists_base64urlEncoded (data : List UInt8) : ∃ text : String,
    base64urlEncoded data = Prog.pure text ∧ text.toList = Base64.encode data := by
  obtain ⟨text, htext, hchars⟩ := exists_base64urlEncode data
  refine ⟨text, ?_, hchars⟩
  rw [base64urlEncoded, htext]
  rfl

theorem splitOn_token {first second third : String} {a b c : List UInt8}
    (hfirst : first.toList = Base64.encode a) (hsecond : second.toList = Base64.encode b)
    (hthird : third.toList = Base64.encode c) :
    (first ++ "." ++ second ++ "." ++ third).toList.splitOn '.' =
      [first.toList, second.toList, third.toList] := by
  have hdot : ∀ data, '.' ∉ Base64.encode data := fun data => notMem_encode rfl
  have hdots : ∀ l ∈ [first.toList, second.toList, third.toList], '.' ∉ l := by
    rw [hfirst, hsecond, hthird]
    simp [hdot]
  have hjoined : (first ++ "." ++ second ++ "." ++ third).toList =
      ['.'].intercalate [first.toList, second.toList, third.toList] := by
    simp [List.intercalate, List.intersperse]
  rw [hjoined]
  exact List.splitOn_intercalate '.' hdots (List.cons_ne_nil _ _)

/-- What an independent verifier finds in a token made at the time `now`. -/
def Verifies (sha256 : List UInt8 → FixedBytes 32) (secret : List UInt8) (now : UInt64)
    (token : String) : Prop :=
  ∃ first second third : List Char,
    token.toList.splitOn '.' = [first, second, third] ∧
      Base64.decode first = some "\x7b\"alg\":\"HS256\",\"typ\":\"JWT\"\x7d".toUTF8.toList ∧
      Base64.decode second = some ("\x7b\"iat\":" ++ toString now ++ "\x7d").toUTF8.toList ∧
      Base64.decode third = some (Hmac.hmac (fun data => (sha256 data).bytes) 64 secret
        (String.ofList (first ++ '.' :: second)).toUTF8.toList)

/-- A token is made exactly from a text whose digits are those of 32 bytes. Every token
verifies under this secret, and `hmac_sha256` is the HMAC of RFC 2104 over the given hash
function. -/
theorem buildToken_verifies (secretHex : String) :
    ((buildToken sha256 hexError secretHex).Total anyAnswer () fun tr r _ =>
      ((∃ token, r = .ok token) ↔ ∃ secret,
        hexDecode (trimStartMatches secretHex.toList) = some secret ∧ secret.length = 32) ∧
      ∀ token, r = .ok token → ∃ secret now,
        hexDecode (trimStartMatches secretHex.toList) = some secret ∧ secret.length = 32 ∧
          tr = [⟨.now, now⟩] ∧ Verifies sha256 secret now token) ∧
    ∀ key message, (hmacSha256 sha256 key message).bytes =
      Hmac.hmac (fun data => (sha256 data).bytes) 64 key message := by
  refine ⟨?_, hmacSha256_eq⟩
  rw [buildToken]
  dsimp only
  split
  · rename_i hnone
    refine ⟨⟨?_, ?_⟩, ?_⟩
    · rintro ⟨token, ⟨⟩⟩
    · rintro ⟨secret, hsecret, -⟩
      cases hnone.symm.trans hsecret
    · rintro token ⟨⟩
  · rename_i secret hsecret
    split
    · rename_i hlength
      refine ⟨⟨?_, ?_⟩, ?_⟩
      · rintro ⟨token, ⟨⟩⟩
      · rintro ⟨secret', hsecret', hlength'⟩
        obtain rfl := Option.some.inj (hsecret.symm.trans hsecret')
        exact absurd hlength' hlength
      · rintro token ⟨⟩
    · rename_i hlength
      refine ⟨⟨(0 : UInt64), (), trivial⟩, ?_⟩
      rintro now ⟨⟩ -
      obtain ⟨first, hfirst, hfirstChars⟩ := exists_base64urlEncoded header.toUTF8.toList
      obtain ⟨second, hsecond, hsecondChars⟩ :=
        exists_base64urlEncoded (payload now).toUTF8.toList
      obtain ⟨third, hthird, hthirdChars⟩ := exists_base64urlEncoded
        (hmacSha256 sha256 secret (first ++ "." ++ second).toUTF8.toList).bytes
      have hmessage : first ++ "." ++ second =
          String.ofList (first.toList ++ '.' :: second.toList) := by
        apply String.toList_injective
        simp
      show Prog.Total anyAnswer (base64urlEncoded header.toUTF8.toList >>= _) () _
      rw [hfirst, Prog.pure_bind, hsecond, Prog.pure_bind, hthird, Prog.pure_bind]
      refine ⟨⟨fun _ => ⟨secret, hsecret, of_not_not hlength⟩, fun _ => ⟨_, rfl⟩⟩, ?_⟩
      rintro _ ⟨rfl⟩
      refine ⟨secret, now, hsecret, of_not_not hlength, rfl, first.toList, second.toList,
        third.toList, splitOn_token hfirstChars hsecondChars hthirdChars, ?_, ?_, ?_⟩
      · rw [hfirstChars]
        exact Base64.decode_encode _
      · rw [hsecondChars]
        exact Base64.decode_encode _
      · rw [hthirdChars, Base64.decode_encode, hmacSha256_eq, hmessage]

theorem buildToken_verifies_repeated : ∃ tr token now,
    (buildToken Sha256.sha256 String.ofList
      (String.ofList ('0' :: 'x' :: hexEncode (List.replicate 32 17)))).Exec anyAnswer ()
        tr (.ok token) () ∧
      tr = [⟨.now, now⟩] ∧ Verifies Sha256.sha256 (List.replicate 32 17) now token := by
  have hsecret : hexDecode (trimStartMatches (String.ofList
      ('0' :: 'x' :: hexEncode (List.replicate 32 17))).toList) =
      some (List.replicate 32 17) := by
    rw [String.toList_ofList]
    decide
  have htotal := (@buildToken_verifies Sha256.sha256 String.ofList
    (String.ofList ('0' :: 'x' :: hexEncode (List.replicate 32 17)))).1
  obtain ⟨tr, r, ⟨⟩, hexec⟩ := htotal.exists_exec
  obtain ⟨hmade, hverifies⟩ := htotal.ensures tr r () hexec
  obtain ⟨token, rfl⟩ := hmade.mpr ⟨_, hsecret, List.length_replicate⟩
  obtain ⟨secret, now, hdecoded, -, hnow, htoken⟩ := hverifies token rfl
  obtain rfl := Option.some.inj (hsecret.symm.trans hdecoded)
  exact ⟨tr, token, now, hexec, hnow, htoken⟩

end Tokens

end Rkb.Execution.Jwt
