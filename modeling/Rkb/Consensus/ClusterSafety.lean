import Rkb.Consensus.ActorRuns
import Rkb.Consensus.Cluster

namespace Rkb.Consensus.ClusterSafety

open Rkb.Library.Broadcast
open Rkb.Library.Histories
open Rkb.Library.Program
open Rkb.Library.Tasks
open Rkb.Types.Blocks
open Rkb.Execution.Payload
open Rkb.Execution.Client
open Rkb.Consensus.Messages
open Rkb.Consensus.Actor
open Rkb.Consensus.ActorSteps
open Rkb.Consensus.ActorRuns
open Rkb.Consensus.Relay
open Rkb.Consensus.Cluster
open Rkb.Node.Effects

variable {PublicKey : Type} (params : ClusterParams PublicKey)

def proposals (s : ClusterState PublicKey) (n : PublicKey) : List ProposedBlock :=
  (s.validator n).blockRelay.sent

/-- Some validator proposed the block, or a faulty one sent it. -/
def Origin (s : ClusterState PublicKey) (proposed : ProposedBlock) : Prop :=
  (∃ n, proposed ∈ proposals s n) ∨
    ∃ packet ∈ s.wire, packet.sender ∈ params.faulty ∧
      deserializeProposedBlock params.alloy packet.message = some proposed

def KnownPacket (s : ClusterState PublicKey) (packet : Packet PublicKey) : Prop :=
  packet.sender ∈ params.faulty ∨ ∃ proposed ∈ proposals s packet.sender,
    packet.message = (proposedBlockCodec params.alloy).encode proposed

def KnownMessage (s : ClusterState PublicKey) (n : PublicKey) : Message → Prop
  | .receiveBlock digest block payload => Origin params s ⟨digest, block, payload⟩
  | .finalize digest => digest ∈ (s.validator n).reported
  | _ => True

def KnownBlock (s : ClusterState PublicKey) (n : PublicKey) (block : Block) : Prop :=
  ∃ digest ∈ (s.validator n).reported, ∃ payload, Origin params s ⟨digest, block, payload⟩

def Consecutive (blocks : List Block) : Prop :=
  ∀ k block, blocks[k]? = some block → block.height = UInt64.ofNat (k + 1)

structure Traced (s : ClusterState PublicKey) : Prop where
  proposals : ∀ n, ∀ proposed ∈ proposals s n,
    ∃ payload, proposed = proposedBlock params.sha256 payload
  wire : ∀ packet ∈ s.wire, KnownPacket params s packet
  mailbox : ∀ n, ∀ message ∈ (s.validator n).mailbox, KnownMessage params s n message
  finalized : ∀ n, ∀ block ∈ (s.validator n).finalized, KnownBlock params s n block
  heights : ∀ n, Consecutive (s.validator n).finalized

structure Grows (s s' : ClusterState PublicKey) : Prop where
  proposals : ∀ n, proposals s n ⊆ proposals s' n
  wire : s.wire ⊆ s'.wire
  reported : ∀ n, (s.validator n).reported ⊆ (s'.validator n).reported

/-- Only a validator's own actor finalizes its blocks. -/
def SameFinalized (n : PublicKey) (s s' : ClusterState PublicKey) : Prop :=
  (s'.validator n).finalized = (s.validator n).finalized

def Rely (t : ClusterTask PublicKey) (s s' : ClusterState PublicKey) : Prop :=
  Grows s s' ∧ ∀ n, t = .application n → SameFinalized n s s'

def Guarantee (t : ClusterTask PublicKey) (s s' : ClusterState PublicKey) : Prop :=
  Grows s s' ∧ ∀ n, t ≠ .application n → SameFinalized n s s'

/-- What an actor holds between two messages: every pending block has an origin, and
as many blocks are finalized as the height says. -/
structure GoodActor (n : PublicKey) (app : Application) (s : ClusterState PublicKey) : Prop where
  pending : Pairs (fun d b p => Origin params s ⟨d, b, p⟩) app
  height : app.height = UInt64.ofNat ((s.validator n).finalized.length + 1)

abbrev SafeActor [DecidableEq PublicKey] {α : Type} (n : PublicKey)
    (Q : α → ClusterState PublicKey → Prop) (p : NodeProg α) (s : ClusterState PublicKey) : Prop :=
  Safe (clusterSem (.application n)) (Traced params) (Rely (.application n))
    (Guarantee (.application n)) (fun _ _ _ => True) Q p s

section Growth

variable {params} {s s' s'' : ClusterState PublicKey} {n : PublicKey} {proposed : ProposedBlock}
  {message : Message} {block : Block}

theorem Grows.refl (s : ClusterState PublicKey) : Grows s s :=
  ⟨fun _ => List.Subset.refl _, List.Subset.refl _, fun _ => List.Subset.refl _⟩

theorem Grows.trans (h : Grows s s') (h' : Grows s' s'') : Grows s s'' where
  proposals n := List.Subset.trans (h.proposals n) (h'.proposals n)
  wire := List.Subset.trans h.wire h'.wire
  reported n := List.Subset.trans (h.reported n) (h'.reported n)

theorem Origin.grow (h : Origin params s proposed) (hgrows : Grows s s') :
    Origin params s' proposed := by
  rcases h with ⟨n, hmem⟩ | ⟨packet, hpacket, hsent⟩
  · exact .inl ⟨n, hgrows.proposals n hmem⟩
  · exact .inr ⟨packet, hgrows.wire hpacket, hsent⟩

theorem KnownMessage.grow (h : KnownMessage params s n message) (hgrows : Grows s s') :
    KnownMessage params s' n message := by
  cases message with
  | receiveBlock digest block payload => exact Origin.grow h hgrows
  | finalize digest => exact hgrows.reported n h
  | genesis _ => trivial
  | propose => trivial
  | verify _ => trivial
  | broadcast _ => trivial

theorem KnownBlock.grow (h : KnownBlock params s n block) (hgrows : Grows s s') :
    KnownBlock params s' n block := by
  obtain ⟨digest, hdigest, payload, horigin⟩ := h
  exact ⟨digest, hgrows.reported n hdigest, payload, horigin.grow hgrows⟩

theorem KnownPacket.grow {packet : Packet PublicKey} (h : KnownPacket params s packet)
    (hgrows : Grows s s') : KnownPacket params s' packet := by
  rcases h with hfaulty | ⟨proposed, hmem, hmessage⟩
  · exact .inl hfaulty
  · exact .inr ⟨proposed, hgrows.proposals _ hmem, hmessage⟩

theorem GoodActor.grow {app : Application} (h : GoodActor params n app s) (hgrows : Grows s s')
    (hsame : SameFinalized n s s') : GoodActor params n app s' := by
  refine ⟨?_, ?_⟩
  · intro d b hlookup
    obtain ⟨p, hp, horigin⟩ := h.pending d b hlookup
    exact ⟨p, hp, horigin.grow hgrows⟩
  · rw [hsame]
    exact h.height

theorem consecutive_append {blocks : List Block} (h : Consecutive blocks)
    (hheight : block.height = UInt64.ofNat (blocks.length + 1)) :
    Consecutive (blocks ++ [block]) := by
  intro k b hk
  rcases Nat.lt_trichotomy k blocks.length with hlt | rfl | hgt
  · rw [List.getElem?_append_left hlt] at hk
    exact h k b hk
  · rw [List.getElem?_append_right (Nat.le_refl _), Nat.sub_self] at hk
    cases hk
    exact hheight
  · rw [List.getElem?_append_right hgt.le, List.getElem?_eq_none (by simp; omega)] at hk
    cases hk

theorem traced_addPacket (hs : Traced params s) {packet : Packet PublicKey}
    (hpacket : KnownPacket params s packet) :
    Traced params (s.addPacket packet) ∧ Grows s (s.addPacket packet) ∧
      ∀ m, SameFinalized m s (s.addPacket packet) := by
  have hgrows : Grows s (s.addPacket packet) :=
    ⟨fun _ => List.Subset.refl _, List.subset_append_left _ _, fun _ => List.Subset.refl _⟩
  refine ⟨⟨hs.proposals, ?_, ?_, ?_, hs.heights⟩, hgrows, fun _ => rfl⟩
  · intro p hp
    rcases List.mem_append.mp hp with hold | hnew
    · exact (hs.wire p hold).grow hgrows
    · rw [List.mem_singleton.mp hnew]
      exact hpacket.grow hgrows
  · exact fun m message hmessage => (hs.mailbox m message hmessage).grow hgrows
  · exact fun m block hblock => (hs.finalized m block hblock).grow hgrows

end Growth

section Transitions

variable [DecidableEq PublicKey] {params} {s s' : ClusterState PublicKey} {n : PublicKey}
  {v : Validator} {message : Message} {block : Block}

theorem grows_setValidator (hsent : (s.validator n).blockRelay.sent ⊆ v.blockRelay.sent)
    (hreported : (s.validator n).reported ⊆ v.reported) : Grows s (s.setValidator n v) := by
  have hupdate : ∀ m, (s.setValidator n v).validator m = if m = n then v else s.validator m :=
    fun m => Function.update_apply _ _ _ _
  refine ⟨fun m => ?_, List.Subset.refl _, fun m => ?_⟩
  · rw [ClusterSafety.proposals, ClusterSafety.proposals, hupdate]
    split
    · rename_i hm
      rw [hm]
      exact hsent
    · exact List.Subset.refl _
  · rw [hupdate]
    split
    · rename_i hm
      rw [hm]
      exact hreported
    · exact List.Subset.refl _

/-- One validator changes: what is new there has to be known, the rest still is. -/
theorem Traced.setValidator (hs : Traced params s) (hgrows : Grows s (s.setValidator n v))
    (hproposals : ∀ proposed ∈ v.blockRelay.sent,
      ∃ payload, proposed = proposedBlock params.sha256 payload)
    (hmailbox : ∀ message ∈ v.mailbox, KnownMessage params (s.setValidator n v) n message)
    (hfinalized : ∀ block ∈ v.finalized, KnownBlock params (s.setValidator n v) n block)
    (hheights : Consecutive v.finalized) : Traced params (s.setValidator n v) := by
  have hself : (s.setValidator n v).validator n = v := Function.update_self _ _ _
  have hother : ∀ m, m ≠ n → (s.setValidator n v).validator m = s.validator m :=
    fun m hm => Function.update_of_ne hm _ _
  refine ⟨fun m => ?_, fun packet hpacket => (hs.wire packet hpacket).grow hgrows, fun m => ?_,
    fun m => ?_, fun m => ?_⟩
  · by_cases hm : m = n
    · subst hm
      rw [ClusterSafety.proposals, hself]
      exact hproposals
    · rw [ClusterSafety.proposals, hother m hm]
      exact hs.proposals m
  · by_cases hm : m = n
    · subst hm
      rw [hself]
      exact hmailbox
    · rw [hother m hm]
      exact fun message hmessage => (hs.mailbox m message hmessage).grow hgrows
  · by_cases hm : m = n
    · subst hm
      rw [hself]
      exact hfinalized
    · rw [hother m hm]
      exact fun block hblock => (hs.finalized m block hblock).grow hgrows
  · by_cases hm : m = n
    · subst hm
      rw [hself]
      exact hheights
    · rw [hother m hm]
      exact hs.heights m

theorem sameFinalized_setValidator (hv : v.finalized = (s.validator n).finalized)
    (m : PublicKey) : SameFinalized m s (s.setValidator n v) := by
  by_cases hm : m = n
  · subst hm
    exact (congrArg Validator.finalized (Function.update_self _ _ _)).trans hv
  · exact congrArg Validator.finalized (Function.update_of_ne hm _ _)

theorem Traced.setValidator_of_same (hs : Traced params s)
    (hsent : v.blockRelay.sent = (s.validator n).blockRelay.sent)
    (hreported : (s.validator n).reported ⊆ v.reported)
    (hfinalized : v.finalized = (s.validator n).finalized)
    (hmailbox : ∀ message ∈ v.mailbox, message ∈ (s.validator n).mailbox ∨
      KnownMessage params (s.setValidator n v) n message) :
    Traced params (s.setValidator n v) ∧ Grows s (s.setValidator n v) ∧
      ∀ m, SameFinalized m s (s.setValidator n v) := by
  have hgrows : Grows s (s.setValidator n v) :=
    grows_setValidator (hsent ▸ List.Subset.refl _) hreported
  refine ⟨hs.setValidator hgrows ?_ ?_ ?_ ?_, hgrows, sameFinalized_setValidator hfinalized⟩
  · rw [hsent]
    exact hs.proposals n
  · intro message hmessage
    rcases hmailbox message hmessage with hold | hnew
    · exact (hs.mailbox n message hold).grow hgrows
    · exact hnew
  · rw [hfinalized]
    exact fun block hblock => (hs.finalized n block hblock).grow hgrows
  · rw [hfinalized]
    exact hs.heights n

theorem traced_setMailbox (hs : Traced params s) {mailbox : List Message}
    (hmailbox : ∀ message ∈ mailbox, message ∈ (s.validator n).mailbox ∨
      KnownMessage params s n message) :
    Traced params (s.setMailbox n mailbox) ∧ Grows s (s.setMailbox n mailbox) ∧
      ∀ m, SameFinalized m s (s.setMailbox n mailbox) := by
  have hgrows : Grows s (s.setMailbox n mailbox) :=
    grows_setValidator (List.Subset.refl _) (List.Subset.refl _)
  refine hs.setValidator_of_same rfl (List.Subset.refl _) rfl ?_
  exact fun message hmessage => (hmailbox message hmessage).imp_right (·.grow hgrows)

theorem traced_of_trySendAny {mailboxSize : Nat} {message : Option Message} (hs : Traced params s)
    (hknown : ∀ m, message = some m → KnownMessage params s n m)
    (h : TrySendAny mailboxSize n message s s') :
    Traced params s' ∧ Grows s s' ∧ ∀ m, SameFinalized m s s' := by
  cases message with
  | none =>
      cases h
      exact ⟨hs, Grows.refl s, fun _ => rfl⟩
  | some message =>
      rcases h with rfl | ⟨-, rfl⟩
      · refine traced_setMailbox hs fun m hm => ?_
        rcases List.mem_append.mp hm with hold | hnew
        · exact .inl hold
        · exact .inr (hknown m (congrArg some (List.mem_singleton.mp hnew).symm))
      · exact ⟨hs, Grows.refl s', fun _ => rfl⟩

theorem traced_relayBlock (hs : Traced params s) (n : PublicKey) (payload : BuiltPayload) :
    let proposed := proposedBlock params.sha256 payload
    let s' := s.setRelay n ((s.validator n).blockRelay.send proposed)
    Traced params s' ∧ Grows s s' ∧ (∀ m, SameFinalized m s s') ∧
      proposed ∈ ClusterSafety.proposals s' n := by
  intro proposed s'
  have hself : s'.validator n =
      { s.validator n with blockRelay := (s.validator n).blockRelay.send proposed } :=
    Function.update_self _ _ _
  have hgrows : Grows s s' :=
    grows_setValidator (List.subset_append_left _ _) (List.Subset.refl _)
  refine ⟨hs.setValidator hgrows ?_ ?_ ?_ (hs.heights n), hgrows,
    sameFinalized_setValidator rfl, ?_⟩
  · intro p hp
    rcases List.mem_append.mp hp with hold | hnew
    · exact hs.proposals n p hold
    · exact ⟨payload, List.mem_singleton.mp hnew⟩
  · exact fun message hmessage => (hs.mailbox n message hmessage).grow hgrows
  · exact fun block hblock => (hs.finalized n block hblock).grow hgrows
  · rw [ClusterSafety.proposals, hself]
    exact List.mem_append_right _ (List.mem_singleton_self _)

theorem traced_addFinalized (hs : Traced params s) (hknown : KnownBlock params s n block)
    (hheight : block.height = UInt64.ofNat ((s.validator n).finalized.length + 1)) :
    Traced params (s.addFinalized n block) ∧ Grows s (s.addFinalized n block) := by
  have hgrows : Grows s (s.addFinalized n block) :=
    grows_setValidator (List.Subset.refl _) (List.Subset.refl _)
  refine ⟨hs.setValidator hgrows (hs.proposals n) ?_ ?_
    (consecutive_append (hs.heights n) hheight), hgrows⟩
  · exact fun message hmessage => (hs.mailbox n message hmessage).grow hgrows
  · intro b hb
    rcases List.mem_append.mp hb with hold | hnew
    · exact (hs.finalized n b hold).grow hgrows
    · rw [List.mem_singleton.mp hnew]
      exact hknown.grow hgrows

theorem finalized_addFinalized : ((s.addFinalized n block).validator n).finalized =
    (s.validator n).finalized ++ [block] := by
  have hself : (s.addFinalized n block).validator n =
      { s.validator n with finalized := (s.validator n).finalized ++ [block] } :=
    Function.update_self _ _ _
  rw [hself]

theorem traced_addReported (hs : Traced params s) (n : PublicKey) (digests : List AppDigest) :
    Traced params (s.addReported n digests) ∧ Grows s (s.addReported n digests) ∧
      ∀ m, SameFinalized m s (s.addReported n digests) :=
  hs.setValidator_of_same rfl (List.subset_append_left _ _) rfl fun _ hmessage => .inl hmessage

end Transitions

section Actor

variable [DecidableEq PublicKey] {params} {s s' : ClusterState PublicKey} {n : PublicKey}
  {self : Application} {message : Message} {α : Type}

/-- The operation relays only blocks that the actor has built, and finalizes none. -/
def Proposes (sha256 : List UInt8 → AppDigest) (o : NodeOp) : Prop :=
  broadcastOf o = none ∧
    ∀ proposed, relayOf o = some proposed → ∃ payload, proposed = proposedBlock sha256 payload

theorem proposes_of_internal {sha256 : List UInt8 → AppDigest} {o : NodeOp} (h : Internal o) :
    Proposes sha256 o :=
  ⟨h.1, fun proposed hrelay => by rw [h.2] at hrelay; cases hrelay⟩

theorem proposes_of_plain {sha256 : List UInt8 → AppDigest} {o : NodeOp} (h : Plain o) :
    Proposes sha256 o := by
  cases o <;> first
    | exact proposes_of_internal ⟨rfl, rfl⟩
    | exact h.elim

theorem performs_proposes {sha256 : List UInt8 → AppDigest}
    (hmessage : ∀ digest, message ≠ .finalize digest) :
    (self.processMessage sha256 message).Performs (Proposes sha256) := by
  refine performs_processMessage sha256 (fun _ => proposes_of_plain) (fun built => ?_) hmessage
  refine ⟨rfl, ?_⟩
  rintro proposed ⟨⟩
  exact ⟨built, rfl⟩

theorem clusterSem_of_proposes {o : NodeOp} {ans : Ans o} (ho : Proposes params.sha256 o)
    (hs : Traced params s) (hsem : clusterSem (.application n) o s ans s') :
    Traced params s' ∧ Grows s s' ∧ (∀ m, SameFinalized m s s') ∧
      ∀ proposed, relayOf o = some proposed → proposed ∈ ClusterSafety.proposals s' n := by
  by_cases hrelay : relayOf o = none
  · have hsame : s' = s := by
      cases o <;> first
        | exact hsem
        | exact absurd hrelay (Option.some_ne_none _)
        | exact absurd ho.1 (Option.some_ne_none _)
    subst hsame
    refine ⟨hs, Grows.refl s', fun _ => rfl, ?_⟩
    rintro proposed hproposed
    rw [hrelay] at hproposed
    cases hproposed
  · obtain ⟨proposed, hproposed⟩ := Option.ne_none_iff_exists'.mp hrelay
    have hop : o = .relayBlock proposed := by
      cases o <;> cases hproposed
      rfl
    subst hop
    obtain ⟨payload, rfl⟩ := ho.2 proposed rfl
    cases hsem
    obtain ⟨htraced, hgrows, hsame, hmem⟩ := traced_relayBlock hs n payload
    refine ⟨htraced, hgrows, hsame, ?_⟩
    rintro _ ⟨rfl⟩
    exact hmem

theorem safe_of_proposes (hgood : GoodActor params n self s)
    (hmessage : ∀ digest, message ≠ .finalize digest)
    (hknown : KnownMessage params s n message) :
    SafeActor params n (GoodActor params n) (self.processMessage params.sha256 message) s := by
  -- along the message: what it has relayed so far is there, and nothing else has changed
  let J : List NodeEvent → ClusterState PublicKey → Prop := fun tr s₁ =>
    Grows s s₁ ∧ SameFinalized n s s₁ ∧ relayed tr ⊆ ClusterSafety.proposals s₁ n
  have hsafe : SafeActor params n
      (fun self' s' => ∃ tr,
        (self.processMessage params.sha256 message).Exec anyAnswer () tr self' () ∧ J tr s')
      (self.processMessage params.sha256 message) s := by
    refine safe_of_trace (J := J) ?_ ?_ (performs_proposes hmessage) []
      ⟨Grows.refl s, rfl, List.nil_subset _⟩
    · rintro tr s₁ s₂ ⟨hgrows, hsame, hsub⟩ ⟨hgrows', hsame'⟩
      exact ⟨hgrows.trans hgrows', (hsame' n rfl).trans hsame,
        List.Subset.trans hsub (hgrows'.proposals n)⟩
    · rintro o ho tr s₁ ans s₂ hinv ⟨hgrows, hsame, hsub⟩ hsem
      obtain ⟨htraced, hgrows', hsame', hnew⟩ := clusterSem_of_proposes ho hinv hsem
      refine ⟨⟨htraced, ⟨hgrows', fun m _ => hsame' m⟩, trivial⟩, hgrows.trans hgrows',
        (hsame' n).trans hsame, ?_⟩
      intro proposed hproposed
      rw [relayed, List.filterMap_append, List.mem_append] at hproposed
      rcases hproposed with hold | hlast
      · exact hgrows'.proposals n (hsub hold)
      · obtain ⟨e, he, hrelay⟩ := List.mem_filterMap.mp hlast
        rw [List.mem_singleton.mp he] at hrelay
        exact hnew proposed hrelay
  refine hsafe.mono ?_
  rintro self' s' ⟨tr, hexec, hgrows, hsame, hsub⟩
  have houtcome := ensures_processMessage params.sha256 message tr self' () hexec
  refine ⟨(hgood.grow hgrows hsame).pending.outcome houtcome ?_ ?_, ?_⟩
  · rintro d b p rfl _
    exact hknown.grow hgrows
  · intro proposed hproposed
    exact .inl ⟨n, hsub hproposed⟩
  · rcases height_of_outcome (l := (message, tr)) houtcome with
      ⟨-, hheight⟩ | ⟨digest, _, hfinalize, -⟩
    · rw [hheight, hsame]
      exact hgood.height
    · exact absurd hfinalize (hmessage digest)

theorem safe_of_internal {p : NodeProg α} (hp : p.Performs Internal) :
    SafeActor params n (fun _ s' => Grows s s' ∧ SameFinalized n s s') p s := by
  refine safe_of_performs (J := fun s₁ => Grows s s₁ ∧ SameFinalized n s s₁) ?_ ?_ hp
    ⟨Grows.refl s, rfl⟩
  · rintro s₁ s₂ ⟨hgrows, hsame⟩ ⟨hgrows', hsame'⟩
    exact ⟨hgrows.trans hgrows', (hsame' n rfl).trans hsame⟩
  · rintro o ho s₁ ans s₂ hinv ⟨hgrows, hsame⟩ hsem
    obtain ⟨htraced, hgrows', hsame', -⟩ :=
      clusterSem_of_proposes (proposes_of_internal ho) hinv hsem
    exact ⟨⟨htraced, ⟨hgrows', fun m _ => hsame' m⟩, trivial⟩, hgrows.trans hgrows',
      (hsame' n).trans hsame⟩

theorem ofNat_succ (k : Nat) : UInt64.ofNat (k + 1) = UInt64.ofNat k + 1 :=
  UInt64.ofNat_add k 1

theorem safe_finalize {digest : AppDigest} (hgood : GoodActor params n self s)
    (hknown : digest ∈ (s.validator n).reported) :
    SafeActor params n (GoodActor params n)
      (self.processMessage params.sha256 (.finalize digest)) s := by
  simp only [Application.processMessage]
  unfold Application.finalize
  split
  · rename_i hlookup
    exact ⟨hgood.pending.unknown hlookup, hgood.height⟩
  · rename_i block hlookup
    simp only
    split
    · exact ⟨hgood.pending.dropped, hgood.height⟩
    · rename_i hvalid
      have hheight : block.height = self.height := by
        rw [Bool.not_eq_true, Bool.not_eq_false'] at hvalid
        exact beq_iff_eq.mp hvalid
      obtain ⟨payload, -, horigin⟩ := hgood.pending digest block hlookup
      rw [Prog.bind_assoc]
      have happly := (internal_applyToReth (self.pendingPayloads.lookup digest)).mono
        fun _ ho => ho.1
      refine safe_bind (safe_of_internal happly) ?_
      rintro _ s₁ ⟨hgrows₁, hsame₁⟩ s₂ ⟨hgrows₂, hsame₂⟩ hinv _ s₃ hsem
      cases hsem
      have hgrows := hgrows₁.trans hgrows₂
      have hsame := (hsame₂ n rfl).trans hsame₁
      have hblock : block.height = UInt64.ofNat ((s₂.validator n).finalized.length + 1) := by
        rw [hsame, hheight]
        exact hgood.height
      obtain ⟨htraced, hgrows₃⟩ := traced_addFinalized hinv
        ⟨digest, hgrows.reported n hknown, payload, horigin.grow hgrows⟩ hblock
      refine ⟨⟨htraced, ⟨hgrows₃, fun m hm => ?_⟩, trivial⟩, ?_, ?_⟩
      · exact congrArg Validator.finalized
          (Function.update_of_ne (fun hmn => hm (congrArg _ hmn.symm)) _ _)
      · have hpending : Pairs (fun d b p => Origin params s₂ ⟨d, b, p⟩)
            (advanced self digest block) := (hgood.grow hgrows hsame).pending.advanced
        intro d b hlookup'
        obtain ⟨p, hp, horigin'⟩ := hpending d b hlookup'
        exact ⟨p, hp, horigin'.grow hgrows₃⟩
      · rw [finalized_addFinalized, List.length_append, List.length_singleton, ofNat_succ,
          ← hblock]
        rfl

end Actor

section Inputs

variable {params} {s s' : ClusterState PublicKey} {n : PublicKey}

theorem knownPacket_of_own {result : Except RecvError ProposedBlock} {closed : Bool}
    {blockRelay : Channel ProposedBlock} {participants recipients : Finset PublicKey}
    {encoded : List UInt8}
    (hrecv : (s.validator n).blockRelay.recv closed = some (result, blockRelay))
    (hsend : (handleLocalBlock params.alloy participants result).1 = some (recipients, encoded)) :
    KnownPacket params s ⟨n, recipients, encoded⟩ := by
  cases result with
  | ok proposed =>
      cases hsend
      exact .inr ⟨proposed, Channel.mem_sent_of_recv hrecv, rfl⟩
  | error e => cases e <;> cases hsend

theorem knownMessage_of_packet {packet : Packet PublicKey} {message : Message}
    (hmem : packet ∈ s.wire) (hpacket : KnownPacket params s packet)
    (h : handleP2pBlock params.alloy packet.message = some message) :
    KnownMessage params s n message := by
  obtain ⟨proposed, hdecode, rfl⟩ := Option.map_eq_some_iff.mp h
  rcases hpacket with hfaulty | ⟨sent, hsent, hencode⟩
  · exact .inr ⟨packet, hmem, hfaulty, hdecode⟩
  · have hroundTrip := deserialize_serialize params.alloy sent []
    rw [List.append_nil, ← hencode, hdecode] at hroundTrip
    obtain rfl := Option.some.inj hroundTrip
    exact .inl ⟨packet.sender, hsent⟩

theorem traced_of_sendToRecipients {sent : Option (Finset PublicKey × List UInt8)}
    (hs : Traced params s)
    (hknown : ∀ recipients encoded, sent = some (recipients, encoded) →
      KnownPacket params s ⟨n, recipients, encoded⟩)
    (h : SendToRecipients n sent s s') :
    Traced params s' ∧ Grows s s' ∧ ∀ m, SameFinalized m s s' := by
  cases sent with
  | none =>
      cases h
      exact ⟨hs, Grows.refl s, fun _ => rfl⟩
  | some sent =>
      obtain ⟨recipients, encoded⟩ := sent
      rcases h with rfl | rfl
      · exact ⟨hs, Grows.refl s', fun _ => rfl⟩
      · exact traced_addPacket hs (hknown recipients encoded rfl)

variable [DecidableEq PublicKey]

theorem knownMessage_of_call (call : EngineCall) (message : Message)
    (h : call.message = some message) :
    KnownMessage params (s.addReported n call.finalized.toList) n message := by
  have hself : (s.addReported n call.finalized.toList).validator n =
      { s.validator n with reported := (s.validator n).reported ++ call.finalized.toList } :=
    Function.update_self _ _ _
  cases call with
  | genesis epoch => cases h; trivial
  | propose => cases h; trivial
  | verify payload => cases h; trivial
  | broadcast payload => cases h; trivial
  | report activity =>
      cases activity with
      | finalization payload =>
          cases h
          rw [KnownMessage, hself]
          exact List.mem_append_right _ (List.mem_singleton_self _)
      | _ => cases h

theorem traced_of_accept {t : ClusterTask PublicKey} {l : Local t} {x : Input t}
    (hs : Traced params s) (haccept : accept params t l s x s') :
    Traced params s' ∧ Grows s s' ∧ ∀ m, SameFinalized m s s' := by
  cases t with
  | application n =>
      obtain ⟨rest, hmailbox, rfl⟩ := haccept
      refine traced_setMailbox hs fun message hmessage => .inl ?_
      rw [hmailbox]
      exact List.mem_cons_of_mem _ hmessage
  | engine n =>
      obtain ⟨htraced, hgrows, hsame⟩ := traced_addReported hs n (EngineCall.finalized x).toList
      obtain ⟨htraced', hgrows', hsame'⟩ :=
        traced_of_trySendAny htraced (knownMessage_of_call x) haccept
      exact ⟨htraced', hgrows.trans hgrows', fun m => (hsame' m).trans (hsame m)⟩
  | relay n =>
      cases x with
      | own result =>
          obtain ⟨-, closed, blockRelay, hrecv, hsend⟩ := haccept
          have hsent := (Channel.sent_of_recv hrecv).1
          obtain ⟨htraced, hgrows, hsame⟩ := hs.setValidator_of_same (n := n)
            (v := { s.validator n with blockRelay := blockRelay }) hsent (List.Subset.refl _) rfl
            fun _ hmessage => .inl hmessage
          obtain ⟨htraced', hgrows', hsame'⟩ := traced_of_sendToRecipients htraced
            (fun recipients encoded heq =>
              (knownPacket_of_own hrecv heq).grow hgrows) hsend
          exact ⟨htraced', hgrows.trans hgrows', fun m => (hsame' m).trans (hsame m)⟩
      | p2p result =>
          obtain ⟨-, hpacket, hsend⟩ := haccept
          refine traced_of_trySendAny hs ?_ hsend
          intro message hmessage
          cases result with
          | error e => cases hmessage
          | ok r =>
              obtain ⟨sender, bytes⟩ := r
              obtain ⟨packet, hmem, -, -, rfl⟩ := hpacket sender bytes rfl
              exact knownMessage_of_packet hmem (hs.wire packet hmem) hmessage
  | network =>
      obtain ⟨hfaulty, rfl⟩ := haccept
      exact traced_addPacket hs (.inl hfaulty)

end Inputs

section Cluster

variable [DecidableEq PublicKey] {params}

def Good (params : ClusterParams PublicKey) : (t : ClusterTask PublicKey) → Local t →
    ClusterState PublicKey → Prop
  | .application n, app, s => GoodActor params n app s
  | _, _, _ => True

theorem relyGuarantee : RelyGuarantee (system params) (Traced params) Rely Guarantee
    (fun _ _ _ _ => True) (Good params) where
  refl _ s := ⟨Grows.refl s, fun _ _ => rfl⟩
  trans _ _ _ _ h₁ h₂ := ⟨h₁.1.trans h₂.1, fun n hn => (h₂.2 n hn).trans (h₁.2 n hn)⟩
  guarantee t u s s' hne h := ⟨h.1, fun n hn => h.2 n fun ht => hne (hn.trans ht.symm)⟩
  good t l s s' hgood hrely := by
    cases t with
    | application n => exact GoodActor.grow hgood hrely.1 (hrely.2 n rfl)
    | _ => trivial
  accepted t l s x s' hinv hgood haccept := by
    obtain ⟨htraced, hgrows, hsame⟩ := traced_of_accept hinv haccept
    refine ⟨htraced, ⟨hgrows, fun n _ => hsame n⟩, ?_⟩
    cases t with
    | application n =>
        have hgood' : GoodActor params n l s' := GoodActor.grow hgood hgrows (hsame n)
        obtain ⟨rest, hmailbox, -⟩ := haccept
        have hknown : KnownMessage params s' n x :=
          (hinv.mailbox n x (hmailbox ▸ List.mem_cons_self)).grow hgrows
        by_cases hfinalize : ∃ digest, x = .finalize digest
        · obtain ⟨digest, rfl⟩ := hfinalize
          exact safe_finalize hgood' hknown
        · exact safe_of_proposes hgood' (fun digest hx => hfinalize ⟨digest, hx⟩) hknown
    | engine n => trivial
    | relay n => cases x <;> trivial
    | network => trivial

end Cluster

end Rkb.Consensus.ClusterSafety
