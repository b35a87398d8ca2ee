import Rkb.Library.Sha256
import Rkb.Types.Wire
import Rkb.Execution.Errors

namespace Rkb.Celestia.Blobs

open Rkb.Library.Sha256
open Rkb.Types.Blocks
open Rkb.Types.Wire
open Rkb.Execution.Errors

structure Blob where
  data : List UInt8
  commitment : List UInt8
deriving DecidableEq

structure BlobSubmission where
  blockHash : B256
  blockHeight : UInt64
  celestiaHeight : UInt64
  commitment : List UInt8
deriving DecidableEq

structure CelestiaClient where
  alloy : AlloySerde
  address : Except String String
  newBlob : List UInt8 → String → Except String Blob

structure BlockInfo where
  hash : B256
  height : UInt64
deriving DecidableEq

namespace CelestiaClient

variable (celestia : CelestiaClient)

def encodeBlock (block : Block) : Except CelestiaError (List UInt8) :=
  .ok ((blockCodec celestia.alloy).encode block)

/-- Bytes after the block are accepted. -/
def decodeBlock (data : List UInt8) : Option Block :=
  ((blockCodec celestia.alloy).decode data).map Prod.fst

def createBlobForBlock (block : Block) : Except CelestiaError Blob := do
  match celestia.address with
  | .error e => .error (.internal ("failed to get address: " ++ e))
  | .ok address => do
      let data ← celestia.encodeBlock block
      match celestia.newBlob data address with
      | .error e => .error (.encodeFailed ("failed to create blob: " ++ e))
      | .ok blob => .ok blob

def createBlobsForBlocks : List Block → Except CelestiaError (List Blob × List BlockInfo)
  | [] => .ok ([], [])
  | block :: blocks => do
      let blob ← celestia.createBlobForBlock block
      let (blobs, infos) ← createBlobsForBlocks blocks
      .ok (blob :: blobs, { hash := block.blockHash, height := block.height } :: infos)

end CelestiaClient

def buildSubmissions (blobs : List Blob) (infos : List BlockInfo) (celestiaHeight : UInt64) :
    List BlobSubmission :=
  (infos.zip blobs).map fun (info, blob) =>
    { blockHash := info.hash
      blockHeight := info.height
      celestiaHeight := celestiaHeight
      commitment := blob.commitment }

theorem createBlobsForBlocks_eq_ok {celestia : CelestiaClient} {blocks : List Block}
    {blobs : List Blob} {infos : List BlockInfo}
    (h : celestia.createBlobsForBlocks blocks = .ok (blobs, infos)) :
    blocks.map celestia.createBlobForBlock = blobs.map Except.ok ∧
      infos = blocks.map fun block => { hash := block.blockHash, height := block.height } := by
  induction blocks generalizing blobs infos with
  | nil =>
      simp only [CelestiaClient.createBlobsForBlocks, Except.ok.injEq, Prod.mk.injEq] at h
      obtain ⟨rfl, rfl⟩ := h
      exact ⟨rfl, rfl⟩
  | cons block blocks ih =>
      rw [CelestiaClient.createBlobsForBlocks] at h
      cases hblob : celestia.createBlobForBlock block with
      | error e => simp [hblob, bind, Except.bind] at h
      | ok blob =>
          cases hrest : celestia.createBlobsForBlocks blocks with
          | error e => simp [hblob, hrest, bind, Except.bind] at h
          | ok r =>
              simp only [hblob, hrest, bind, Except.bind, Except.ok.injEq, Prod.mk.injEq] at h
              obtain ⟨rfl, rfl⟩ := h
              obtain ⟨hcreated, hinfos⟩ := ih hrest
              exact ⟨by simp [hblob, hcreated], by simp [hinfos]⟩

theorem exists_info_of_mem_buildSubmissions {blobs : List Blob} {infos : List BlockInfo}
    {celestiaHeight : UInt64} {submission : BlobSubmission}
    (h : submission ∈ buildSubmissions blobs infos celestiaHeight) :
    ∃ info ∈ infos, submission.blockHash = info.hash := by
  obtain ⟨⟨info, blob⟩, hzip, rfl⟩ := List.mem_map.mp h
  exact ⟨info, (List.of_mem_zip hzip).1, rfl⟩

theorem exists_blob_of_mem_buildSubmissions {celestia : CelestiaClient} {blocks : List Block}
    {blobs : List Blob} {infos : List BlockInfo} {celestiaHeight : UInt64}
    {submission : BlobSubmission}
    (hcreate : celestia.createBlobsForBlocks blocks = .ok (blobs, infos))
    (h : submission ∈ buildSubmissions blobs infos celestiaHeight) :
    ∃ block ∈ blocks, ∃ blob ∈ blobs, celestia.createBlobForBlock block = .ok blob ∧
      submission = ⟨block.blockHash, block.height, celestiaHeight, blob.commitment⟩ := by
  obtain ⟨hcreated, rfl⟩ := createBlobsForBlocks_eq_ok hcreate
  obtain ⟨⟨info, blob⟩, hzip, rfl⟩ := List.mem_map.mp h
  obtain ⟨i, hi⟩ := List.getElem?_of_mem hzip
  obtain ⟨hinfo, hblob⟩ := List.getElem?_zip_eq_some.mp hi
  rw [List.getElem?_map] at hinfo
  obtain ⟨block, hblock, rfl⟩ := Option.map_eq_some_iff.mp hinfo
  have hsame := congrArg (fun l => l[i]?) hcreated
  simp only [List.getElem?_map, hblock, hblob, Option.map_some, Option.some.injEq] at hsame
  exact ⟨block, List.mem_of_getElem? hblock, blob, List.mem_of_getElem? hblob, hsame, rfl⟩

/-- A client whose commitments are digests of the data. -/
def digestClient : CelestiaClient where
  alloy := AlloySerde.binary
  address := .ok "celestia1"
  newBlob data _ := .ok { data := data, commitment := (sha256 data).bytes }

end Rkb.Celestia.Blobs
