import Rkb.Consensus.DigestBinding

namespace Rkb.Consensus.MessageOrder

open Rkb.Library.Bytes
open Rkb.Library.Maps
open Rkb.Library.Program
open Rkb.Types.Blocks
open Rkb.Execution.Payload
open Rkb.Execution.Client
open Rkb.Consensus.Messages
open Rkb.Consensus.Actor
open Rkb.Consensus.ActorSteps
open Rkb.Consensus.ActorRuns
open Rkb.Consensus.DigestBinding
open Rkb.Node.Effects

def receiveOf : Message → Option ProposedBlock
  | .receiveBlock digest block payload => some ⟨digest, block, payload⟩
  | _ => none

/-- The messages are the finalizations of the blocks in their order and one
receipt of each of them, in any interleaving. -/
structure Interleaves (messages : List Message) (rs : List ProposedBlock) : Prop where
  finalizes : messages.filterMap finalizeOf = rs.map ProposedBlock.digest
  receives : (messages.filterMap receiveOf).Perm rs
  only : ∀ m ∈ messages, (finalizeOf m).isSome ∨ (receiveOf m).isSome

/-- The next blocks of the actor, under distinct digests that are not pending. -/
structure NextBlocks (app : Application) (rs : List ProposedBlock) : Prop where
  heights : ∀ (i : Nat) (r : ProposedBlock), rs[i]? = some r →
    r.block.height.toNat = app.height.toNat + i
  nodup : (rs.map ProposedBlock.digest).Nodup
  fresh : ∀ r ∈ rs, app.pendingBlocks.lookup r.digest = none

def ReceivedFirst (messages : List Message) : Prop :=
  ∀ pre digest post, messages = pre ++ .finalize digest :: post →
    ∃ block payload, .receiveBlock digest block payload ∈ pre

def HasBloom (payload : BuiltPayload) : Prop := payload.logsBloom.toList.length = 256

/-- All blocks were broadcast in order and the actor stands after the last. -/
def Delivered (app : Application) (rs : List ProposedBlock) (tr : List NodeEvent)
    (app' : Application) : Prop :=
  broadcasts tr = rs.map ProposedBlock.block ∧
    app'.height.toNat = app.height.toNat + rs.length ∧
    app'.lastHash = (rs.getLast?.map fun r => r.block.blockHash).getD app.lastHash

/-- The invariant of processing: `rest` are the blocks still to be finalized, and
those of them whose receipt is not among the messages are pending. -/
structure Ready (app : Application) (rest : List ProposedBlock) (messages : List Message) :
    Prop where
  heights : ∀ (i : Nat) (r : ProposedBlock), rest[i]? = some r →
    r.block.height.toNat = app.height.toNat + i
  bound : app.height.toNat + rest.length < 2 ^ 64
  nodup : (rest.map ProposedBlock.digest).Nodup
  finalizes : messages.filterMap finalizeOf = rest.map ProposedBlock.digest
  only : ∀ m ∈ messages, (finalizeOf m).isSome ∨ (receiveOf m).isSome
  bloom : ∀ r ∈ rest, HasBloom r.payload
  nodupReceives : ((messages.filterMap receiveOf).map ProposedBlock.digest).Nodup
  toCome : ∀ r ∈ messages.filterMap receiveOf,
    r ∈ rest ∧ app.pendingBlocks.lookup r.digest = none
  pending : ∀ r ∈ rest, r ∉ messages.filterMap receiveOf →
    app.pendingBlocks.lookup r.digest = some r.block ∧
      app.pendingPayloads.lookup r.digest = some r.payload
  order : ∀ pre digest post, messages = pre ++ .finalize digest :: post →
    app.pendingBlocks.lookup digest ≠ none ∨
      ∃ block payload, .receiveBlock digest block payload ∈ pre

variable {sha256 : List UInt8 → AppDigest} {self self' : Application}
  {rest rs : List ProposedBlock} {messages : List Message} {r : ProposedBlock}

theorem eq_of_digest_eq (hnodup : (rest.map ProposedBlock.digest).Nodup) {r₁ r₂ : ProposedBlock}
    (h₁ : r₁ ∈ rest) (h₂ : r₂ ∈ rest) (h : r₁.digest = r₂.digest) : r₁ = r₂ :=
  List.inj_on_of_nodup_map hnodup h₁ h₂ h

theorem ready_of_nextBlocks (hnext : NextBlocks self rs) (hmessages : Interleaves messages rs)
    (hfirst : ReceivedFirst messages) (hbound : self.height.toNat + rs.length < 2 ^ 64)
    (hbloom : ∀ r ∈ rs, HasBloom r.payload) : Ready self rs messages where
  heights := hnext.heights
  bound := hbound
  nodup := hnext.nodup
  finalizes := hmessages.finalizes
  only := hmessages.only
  bloom := hbloom
  nodupReceives := (hmessages.receives.map _).nodup_iff.mpr hnext.nodup
  toCome := by
    intro r hr
    have hmem := hmessages.receives.mem_iff.mp hr
    exact ⟨hmem, hnext.fresh r hmem⟩
  pending := fun r hr hnot => absurd (hmessages.receives.mem_iff.mpr hr) hnot
  order := fun pre digest post h => .inr (hfirst pre digest post h)

theorem ready_stored {v : Finset AppDigest}
    (h : Ready self rest (.receiveBlock r.digest r.block r.payload :: messages)) :
    Ready (stored self r.digest r.block r.payload v) rest messages := by
  have hreceives : (Message.receiveBlock r.digest r.block r.payload :: messages).filterMap
      receiveOf = r :: messages.filterMap receiveOf := rfl
  have hnodup := h.nodupReceives
  have hcome := h.toCome
  have hpending := h.pending
  rw [hreceives] at hnodup hcome hpending
  obtain ⟨hr, hfresh⟩ := hcome r List.mem_cons_self
  have hdistinct : ∀ r' ∈ messages.filterMap receiveOf, r'.digest ≠ r.digest := by
    intro r' hr' heq
    rw [List.map_cons, List.nodup_cons] at hnodup
    exact hnodup.1 (heq ▸ List.mem_map_of_mem hr')
  refine ⟨h.heights, h.bound, h.nodup, h.finalizes, ?_, h.bloom, ?_, ?_, ?_, ?_⟩
  · exact fun m hm => h.only m (List.mem_cons_of_mem _ hm)
  · rw [List.map_cons] at hnodup
    exact hnodup.of_cons
  · intro r' hr'
    obtain ⟨hmem, hnone⟩ := hcome r' (List.mem_cons_of_mem _ hr')
    refine ⟨hmem, ?_⟩
    rw [lookup_stored, if_neg (hdistinct r' hr')]
    exact hnone
  · intro r' hr' hnot
    rw [lookup_stored]
    simp only [stored, lookup_insert]
    by_cases heq : r'.digest = r.digest
    · rw [if_pos heq, if_pos heq, eq_of_digest_eq h.nodup hr' hr heq]
      exact ⟨rfl, rfl⟩
    · rw [if_neg heq, if_neg heq]
      refine hpending r' hr' ?_
      intro hmem
      rcases List.mem_cons.mp hmem with hmem | hmem
      · exact heq (congrArg _ hmem)
      · exact hnot hmem
  · intro pre digest post hsplit
    rw [lookup_stored]
    split
    · exact .inl (Option.some_ne_none _)
    · rename_i hne
      rcases h.order (_ :: pre) digest post (congrArg (List.cons _) hsplit) with hold | ⟨b, p, hmem⟩
      · exact .inl hold
      · rcases List.mem_cons.mp hmem with hmem | hmem
        · cases hmem
          exact absurd rfl hne
        · exact .inr ⟨b, p, hmem⟩

theorem ready_finalize {digest : AppDigest}
    (h : Ready self rest (.finalize digest :: messages)) :
    ∃ r rest', rest = r :: rest' ∧ r.digest = digest ∧ r ∉ messages.filterMap receiveOf ∧
      self.pendingBlocks.lookup digest = some r.block ∧
      self.pendingPayloads.lookup digest = some r.payload ∧ r.block.height = self.height := by
  have hfinalizes : digest :: messages.filterMap finalizeOf = rest.map ProposedBlock.digest :=
    h.finalizes
  cases rest with
  | nil => cases hfinalizes
  | cons r rest' =>
      rw [List.map_cons, List.cons.injEq] at hfinalizes
      obtain ⟨hdigest, -⟩ := hfinalizes
      have hpendingSome : self.pendingBlocks.lookup digest ≠ none := by
        rcases h.order [] digest messages rfl with hsome | ⟨b, p, hmem⟩
        · exact hsome
        · cases hmem
      have hnot : r ∉ messages.filterMap receiveOf := by
        intro hmem
        exact hpendingSome (hdigest ▸ (h.toCome r hmem).2)
      obtain ⟨hblock, hpayload⟩ := h.pending r List.mem_cons_self hnot
      rw [← hdigest] at hblock hpayload
      refine ⟨r, rest', rfl, hdigest.symm, hnot, hblock, hpayload, ?_⟩
      exact UInt64.toNat_inj.mp (h.heights 0 r rfl)

section Advanced

variable {rest' : List ProposedBlock}

theorem Ready.toNat_next (h : Ready self (r :: rest') messages)
    (hheight : r.block.height = self.height) :
    (r.block.height + 1).toNat = self.height.toNat + 1 := by
  have hbound := h.bound
  rw [List.length_cons] at hbound
  rw [hheight]
  exact toNat_succ (by omega)

theorem Ready.heights_next (h : Ready self (r :: rest') messages)
    (hheight : r.block.height = self.height) (i : Nat) (r' : ProposedBlock)
    (hi : rest'[i]? = some r') :
    r'.block.height.toNat = (r.block.height + 1).toNat + i := by
  have hold := h.heights (i + 1) r' hi
  have hnext := h.toNat_next hheight
  omega

theorem Ready.pending_next (h : Ready self (r :: rest') messages)
    (hheight : r.block.height = self.height) {r' : ProposedBlock} (hr' : r' ∈ rest')
    (hnot : r' ∉ messages.filterMap receiveOf) :
    (advanced self r.digest r.block).pendingBlocks.lookup r'.digest = some r'.block ∧
      (advanced self r.digest r.block).pendingPayloads.lookup r'.digest = some r'.payload := by
  have hnodup := h.nodup
  rw [List.map_cons, List.nodup_cons] at hnodup
  have hdistinct : r'.digest ≠ r.digest :=
    fun heq => hnodup.1 (heq ▸ List.mem_map_of_mem hr')
  obtain ⟨hblock, hpayload⟩ := h.pending r' (List.mem_cons_of_mem _ hr') hnot
  obtain ⟨i, hi⟩ := List.getElem?_of_mem hr'
  have hkept : (advanced self r.digest r.block).pendingBlocks.lookup r'.digest =
      some r'.block := by
    refine lookup_advanced.mpr ⟨hdistinct, hblock, ?_⟩
    rw [UInt64.lt_iff_toNat_lt, h.heights_next hheight i r' hi]
    omega
  exact ⟨hkept, (payload_advanced hkept).trans hpayload⟩

theorem Ready.toCome_next (h : Ready self (r :: rest') messages)
    (hnot : r ∉ messages.filterMap receiveOf) {r' : ProposedBlock}
    (hr' : r' ∈ messages.filterMap receiveOf) :
    r' ∈ rest' ∧ self.pendingBlocks.lookup r'.digest = none := by
  obtain ⟨hmem, hnone⟩ := h.toCome r' hr'
  rcases List.mem_cons.mp hmem with rfl | hmem
  · exact absurd hr' hnot
  · exact ⟨hmem, hnone⟩

theorem ready_advanced
    (h : Ready self (r :: rest') (.finalize r.digest :: messages))
    (hnot : r ∉ messages.filterMap receiveOf) (hheight : r.block.height = self.height) :
    Ready (advanced self r.digest r.block) rest' messages := by
  have hnodup := h.nodup
  rw [List.map_cons, List.nodup_cons] at hnodup
  have hfinalizes : r.digest :: messages.filterMap finalizeOf =
      r.digest :: rest'.map ProposedBlock.digest := h.finalizes
  rw [List.cons.injEq] at hfinalizes
  refine ⟨h.heights_next hheight, ?_, hnodup.2, hfinalizes.2, ?_, ?_, h.nodupReceives, ?_,
    fun r' => h.pending_next hheight, ?_⟩
  · have hbound := h.bound
    rw [List.length_cons] at hbound
    rw [advanced_height, h.toNat_next hheight]
    omega
  · exact fun m hm => h.only m (List.mem_cons_of_mem _ hm)
  · exact fun r' hr' => h.bloom r' (List.mem_cons_of_mem _ hr')
  · intro r' hr'
    obtain ⟨hmem, hnone⟩ := h.toCome_next hnot hr'
    refine ⟨hmem, ?_⟩
    cases hlookup : (advanced self r.digest r.block).pendingBlocks.lookup r'.digest with
    | none => rfl
    | some b =>
        rw [(lookup_advanced.mp hlookup).2.1] at hnone
        cases hnone
  · intro pre digest post hsplit
    rcases h.order (_ :: pre) digest post (congrArg (List.cons _) hsplit) with hold | ⟨b, p, hmem⟩
    · -- the digest is one of the remaining blocks', and pending blocks stay pending
      have hdigest : digest ∈ rest'.map ProposedBlock.digest := by
        rw [← hfinalizes.2, hsplit, List.filterMap_append]
        exact List.mem_append_right _ List.mem_cons_self
      obtain ⟨r', hr', rfl⟩ := List.mem_map.mp hdigest
      have hnot' : r' ∉ messages.filterMap receiveOf :=
        fun hmem => hold (h.toCome_next hnot hmem).2
      rw [(h.pending_next hheight hr' hnot').1]
      exact .inl (Option.some_ne_none _)
    · rcases List.mem_cons.mp hmem with hmem | hmem
      · cases hmem
      · exact .inr ⟨b, p, hmem⟩

end Advanced

theorem not_ready_of_other {message : Message} (hfinalize : finalizeOf message = none)
    (hreceive : receiveOf message = none) : ¬ Ready self rest (message :: messages) := by
  intro h
  rcases h.only message List.mem_cons_self with hsome | hsome
  · rw [hfinalize] at hsome
    cases hsome
  · rw [hreceive] at hsome
    cases hsome

theorem total_processMessage {message : Message} (h : Ready self rest (message :: messages)) :
    (self.processMessage sha256 message).Total anyAnswer ()
      fun tr self' _ => Outcome sha256 self message tr self' := by
  have hpayload : ∀ {payload : BuiltPayload}, HasBloom payload →
      payload.toExecutionPayload ≠ none := fun hbloom =>
    Option.isSome_iff_ne_none.mp (toExecutionPayload_isSome.mpr hbloom)
  refine (ensures_processMessage sha256 message).total ?_
  cases message with
  | finalize digest =>
      obtain ⟨r, rest', rfl, -, -, -, hbuilt, -⟩ := ready_finalize h
      exact answered_finalize hbuilt (hpayload (h.bloom r List.mem_cons_self))
  | receiveBlock digest block payload =>
      have hmem : (⟨digest, block, payload⟩ : ProposedBlock) ∈
          (Message.receiveBlock digest block payload :: messages).filterMap receiveOf :=
        List.mem_cons_self
      exact answered_receiveBlock digest block (hpayload (h.bloom _ (h.toCome _ hmem).1))
  | genesis epoch => exact absurd h (not_ready_of_other rfl rfl)
  | propose => exact absurd h (not_ready_of_other rfl rfl)
  | verify payload => exact absurd h (not_ready_of_other rfl rfl)
  | broadcast payload => exact absurd h (not_ready_of_other rfl rfl)

theorem broadcasts_append (tr₁ tr₂ : List NodeEvent) :
    broadcasts (tr₁ ++ tr₂) = broadcasts tr₁ ++ broadcasts tr₂ :=
  List.filterMap_append

theorem total_of_ready (h : Ready self rest messages) :
    (self.processMessages sha256 messages).Total anyAnswer ()
      fun tr self' _ => Delivered self rest tr self' := by
  induction messages generalizing self rest with
  | nil =>
      have hrest : rest = [] := List.map_eq_nil_iff.mp h.finalizes.symm
      subst hrest
      exact ⟨rfl, rfl, rfl⟩
  | cons message messages ih =>
      refine Prog.total_bind.mpr ((total_processMessage h).mono fun tr₁ self₁ _ houtcome => ?_)
      cases houtcome with
      | @unknown digest hnone =>
          obtain ⟨r, rest', -, -, -, hblock, -, -⟩ := ready_finalize h
          rw [hnone] at hblock
          cases hblock
      | @wrongHeight digest block hlookup hne =>
          obtain ⟨r, rest', -, -, -, hblock, -, hheight⟩ := ready_finalize h
          rw [hlookup, Option.some.injEq] at hblock
          exact absurd (hblock ▸ hheight) hne
      | @finalized digest block _ hlookup _ hbroadcast _ _ =>
          obtain ⟨r, rest', rfl, rfl, hnot, hblock, -, hheight⟩ := ready_finalize h
          rw [hlookup, Option.some.injEq] at hblock
          subst hblock
          refine (ih (ready_advanced h hnot hheight)).mono fun tr₂ self₂ _ hrest => ?_
          obtain ⟨hblocks, hlast, hhash⟩ := hrest
          have hbound := h.bound
          rw [List.length_cons] at hbound
          refine ⟨?_, ?_, ?_⟩
          · rw [broadcasts_append, hbroadcast, hblocks, List.map_cons]
            rfl
          · rw [hlast, advanced_height, hheight, toNat_succ (by omega), List.length_cons]
            omega
          · rw [hhash, advanced_lastHash, List.getLast?_cons]
            cases rest'.getLast? <;> rfl
      | @alreadyPending digest block payload hmem =>
          have hnone := (h.toCome ⟨digest, block, payload⟩ List.mem_cons_self).2
          exact absurd hmem (Finmap.lookup_eq_none.mp hnone)
      | @received digest block payload _ v _ hsilent =>
          have hready : Ready (stored self digest block payload v) rest messages :=
            ready_stored (r := ⟨digest, block, payload⟩) h
          refine (ih hready).mono fun tr₂ self₂ _ hrest => ?_
          obtain ⟨hblocks, hlast, hhash⟩ := hrest
          refine ⟨?_, hlast, hhash⟩
          rw [broadcasts_append, hsilent.1, List.nil_append, hblocks]
      | genesis _ _ => exact absurd h (not_ready_of_other rfl rfl)
      | proposedNull _ => exact absurd h (not_ready_of_other rfl rfl)
      | proposed _ _ _ => exact absurd h (not_ready_of_other rfl rfl)
      | verified _ _ => exact absurd h (not_ready_of_other rfl rfl)
      | broadcast => exact absurd h (not_ready_of_other rfl rfl)

theorem notPending_of_outcome {message : Message} {tr : List NodeEvent} {digest : AppDigest}
    (h : Outcome sha256 self message tr self')
    (honly : (finalizeOf message).isSome ∨ (receiveOf message).isSome)
    (hmessage : ∀ b p, message ≠ .receiveBlock digest b p)
    (hself : self.pendingBlocks.lookup digest = none) :
    self'.pendingBlocks.lookup digest = none := by
  cases h with
  | genesis _ _ => exact hself
  | proposedNull _ => exact hself
  | proposed _ _ _ => simp [finalizeOf, receiveOf] at honly
  | verified _ _ => exact hself
  | broadcast => exact hself
  | unknown _ => exact hself
  | wrongHeight _ _ =>
      rw [lookup_dropped, hself]
      exact ite_self _
  | @finalized d block _ _ _ _ _ _ =>
      cases hlookup : (advanced self d block).pendingBlocks.lookup digest with
      | none => rfl
      | some b =>
          rw [(lookup_advanced.mp hlookup).2.1] at hself
          cases hself
  | alreadyPending _ => exact hself
  | @received d block payload _ _ _ _ =>
      have hne : digest ≠ d := by
        rintro rfl
        exact hmessage block payload rfl
      rw [lookup_stored, if_neg hne]
      exact hself

theorem notPending_of_run {ts : List ActorTransition} {digest : AppDigest}
    (hrun : ActorRun sha256 self ts self')
    (honly : ∀ t ∈ ts, (finalizeOf t.label.1).isSome ∨ (receiveOf t.label.1).isSome)
    (hmessage : ∀ t ∈ ts, ∀ b p, t.label.1 ≠ .receiveBlock digest b p)
    (hself : self.pendingBlocks.lookup digest = none) :
    self'.pendingBlocks.lookup digest = none := by
  have hinvariant := hrun.invariant (fun app => app.pendingBlocks.lookup digest = none)
    (fun t => ((finalizeOf t.label.1).isSome ∨ (receiveOf t.label.1).isSome) ∧
      ∀ b p, t.label.1 ≠ .receiveBlock digest b p)
    (fun t hstep hcond hpre => notPending_of_outcome hstep.outcome hcond.1 hcond.2 hpre)
    (fun t ht => ⟨honly t ht, hmessage t ht⟩) hself
  exact hinvariant.1

theorem finalizeDigests_of_messages {ts : List ActorTransition}
    (h : ts.map (fun t => t.label.1) = messages) :
    finalizeDigests ts = messages.filterMap finalizeOf := by
  rw [← h, List.filterMap_map]
  rfl

/-- A finalization that comes before its block is lost, and with it the count. -/
theorem receivedFirst_of_length {tr : List NodeEvent} (hnext : NextBlocks self rs)
    (hmessages : Interleaves messages rs)
    (hexec : (self.processMessages sha256 messages).Exec anyAnswer () tr self' ())
    (hlength : (broadcasts tr).length = rs.length) : ReceivedFirst messages := by
  intro pre digest post hsplit
  by_contra hnone
  have honly := hmessages.only
  have hfinalizes := hmessages.finalizes
  rw [hsplit] at hexec honly hfinalizes
  rw [processMessages_append] at hexec
  obtain ⟨tr₁, app₁, ⟨⟩, tr₂, rfl, hpre, hrest⟩ := Prog.exec_bind.mp hexec
  obtain ⟨trF, app₂, ⟨⟩, trP, rfl, hfin, hpost⟩ := Prog.exec_bind.mp hrest
  obtain ⟨tsPre, hrunPre, hmsgPre, hblocksPre⟩ := run_of_processMessages hpre
  obtain ⟨tsPost, hrunPost, hmsgPost, hblocksPost⟩ := run_of_processMessages hpost
  have hmem : digest ∈ rs.map ProposedBlock.digest := by
    rw [← hfinalizes, List.filterMap_append]
    exact List.mem_append_right _ List.mem_cons_self
  obtain ⟨r, hr, hrd⟩ := List.mem_map.mp hmem
  have hmsg : ∀ t ∈ tsPre, t.label.1 ∈ pre := fun t ht => hmsgPre ▸ List.mem_map_of_mem ht
  have hlookup : app₁.pendingBlocks.lookup digest = none := by
    refine notPending_of_run hrunPre ?_ ?_ (hrd ▸ hnext.fresh r hr)
    · exact fun t ht => honly _ (List.mem_append_left _ (hmsg t ht))
    · exact fun t ht b p heq => hnone ⟨b, p, heq ▸ hmsg t ht⟩
  have hsilent : broadcasts trF = [] := by
    have houtcome := ensures_processMessage sha256 (.finalize digest) trF app₂ () hfin
    cases houtcome with
    | unknown _ => rfl
    | wrongHeight _ _ => rfl
    | finalized hsome _ _ _ _ =>
        rw [hlookup] at hsome
        cases hsome
  have hlenPre := length_finalizedBlocks_le hrunPre
  have hlenPost := length_finalizedBlocks_le hrunPost
  rw [finalizeDigests_of_messages hmsgPre, hblocksPre] at hlenPre
  rw [finalizeDigests_of_messages hmsgPost, hblocksPost] at hlenPost
  have hcons : (Message.finalize digest :: post).filterMap finalizeOf =
      digest :: post.filterMap finalizeOf := rfl
  have hcount := congrArg List.length hfinalizes
  rw [List.filterMap_append, hcons, List.length_append, List.length_cons, List.length_map]
    at hcount
  rw [broadcasts_append, broadcasts_append, hsilent, List.nil_append, List.length_append]
    at hlength
  omega

theorem not_total_receiveBlock {digest : AppDigest} {block : Block} {payload : BuiltPayload}
    {Q : List NodeEvent → Application → Unit → Prop}
    (hself : self.pendingBlocks.lookup digest = none) (hbloom : ¬ HasBloom payload) :
    ¬ (self.processMessage sha256 (.receiveBlock digest block payload)).Total anyAnswer () Q := by
  have hnone : payload.toExecutionPayload = none := by
    rw [← Option.not_isSome_iff_eq_none, toExecutionPayload_isSome]
    exact hbloom
  have hmem : digest ∉ self.pendingBlocks := Finmap.lookup_eq_none.mp hself
  simp only [Application.processMessage, Application.handleReceiveBlock, if_neg hmem,
    importPayload, requestNewPayload, hnone, panicWith]
  rintro ⟨⟨ans, -⟩, -⟩
  exact ans.elim

theorem bloom_of_total {Q : List NodeEvent → Application → Unit → Prop}
    (hnext : NextBlocks self rs) (hmessages : Interleaves messages rs)
    (htotal : (self.processMessages sha256 messages).Total anyAnswer () Q) :
    ∀ r ∈ rs, HasBloom r.payload := by
  intro r hr
  by_contra hbloom
  obtain ⟨message, hmem, hmessage⟩ :=
    List.mem_filterMap.mp (hmessages.receives.mem_iff.mpr hr)
  obtain ⟨pre, post, hsplit⟩ := List.append_of_mem hmem
  have hmessage' : message = .receiveBlock r.digest r.block r.payload := by
    cases message with
    | receiveBlock d b p =>
        cases hmessage
        rfl
    | _ => cases hmessage
  have honly := hmessages.only
  have hnodup : ((messages.filterMap receiveOf).map ProposedBlock.digest).Nodup :=
    (hmessages.receives.map _).nodup_iff.mpr hnext.nodup
  rw [hsplit] at htotal honly hnodup
  rw [processMessages_append] at htotal
  have hsplitTotal := Prog.total_bind.mp htotal
  obtain ⟨tr, app₁, ⟨⟩, hexec⟩ := hsplitTotal.exists_exec
  have hrest := Prog.total_bind.mp (hsplitTotal.ensures tr app₁ () hexec)
  obtain ⟨ts, hrun, hmsg, -⟩ := run_of_processMessages hexec
  have hmem' : ∀ t ∈ ts, t.label.1 ∈ pre := fun t ht => hmsg ▸ List.mem_map_of_mem ht
  -- the receipts have distinct digests, so none before this one has its digest
  rw [List.filterMap_append, List.filterMap_cons_some hmessage, List.map_append,
    List.map_cons] at hnodup
  have hlookup : app₁.pendingBlocks.lookup r.digest = none := by
    refine notPending_of_run hrun ?_ ?_ (hnext.fresh r hr)
    · exact fun t ht => honly _ (List.mem_append_left _ (hmem' t ht))
    · intro t ht b p heq
      have hearlier : r.digest ∈ (pre.filterMap receiveOf).map ProposedBlock.digest :=
        List.mem_map.mpr ⟨⟨r.digest, b, p⟩,
          List.mem_filterMap.mpr ⟨_, heq ▸ hmem' t ht, rfl⟩, rfl⟩
      exact List.disjoint_of_nodup_append hnodup hearlier List.mem_cons_self
  rw [hmessage'] at hrest
  exact not_total_receiveBlock hlookup hbloom hrest

/-- Processing an interleaving delivers all blocks, whatever reth answers, exactly
when every block is received before it is finalized, the height counter does not
overflow and no import panics. -/
theorem delivered_iff_receivedFirst (hnext : NextBlocks self rs)
    (hmessages : Interleaves messages rs) :
    (self.processMessages sha256 messages).Total anyAnswer ()
        (fun tr self' _ => Delivered self rs tr self') ↔
      ReceivedFirst messages ∧ self.height.toNat + rs.length < 2 ^ 64 ∧
        ∀ r ∈ rs, HasBloom r.payload := by
  constructor
  · intro htotal
    obtain ⟨tr, self', ⟨⟩, hexec⟩ := htotal.exists_exec
    obtain ⟨hblocks, hheight, -⟩ := htotal.ensures tr self' () hexec
    refine ⟨?_, ?_, bloom_of_total hnext hmessages htotal⟩
    · refine receivedFirst_of_length hnext hmessages hexec ?_
      rw [hblocks, List.length_map]
    · rw [← hheight]
      exact self'.height.toNat_lt
  · rintro ⟨hfirst, hbound, hbloom⟩
    exact total_of_ready (ready_of_nextBlocks hnext hmessages hfirst hbound hbloom)

section Examples

def firstProposal : ProposedBlock := proposedBlock Library.Sha256.sha256 firstPayload

theorem firstProposal_nextBlocks :
    NextBlocks (Application.new genesisConfig) [firstProposal] where
  heights := by
    intro i r h
    cases i with
    | zero =>
        cases h
        rfl
    | succ i => cases h
  nodup := List.nodup_singleton _
  fresh := fun _ _ => Finmap.lookup_empty _

def secondProposal : ProposedBlock :=
  proposedBlock Library.Sha256.sha256
    (emptyPayload 2 (FixedBytes.repeatByte 1) (FixedBytes.repeatByte 2))

/-- The second block overtakes the first one, and both come before their finalizations. -/
def overtakingMessages : List Message :=
  [.receiveBlock secondProposal.digest secondProposal.block secondProposal.payload, firstReceive,
    .finalize firstProposal.digest, .finalize secondProposal.digest]

theorem twoProposals_nextBlocks :
    NextBlocks (Application.new genesisConfig) [firstProposal, secondProposal] where
  heights := by
    intro i r h
    rcases i with _ | _ | i
    · cases h
      rfl
    · cases h
      rfl
    · cases h
  nodup := by decide +kernel
  fresh := fun _ _ => Finmap.lookup_empty _

theorem overtakingMessages_receivedFirst : ReceivedFirst overtakingMessages := by
  rintro pre digest post hsplit
  rcases pre with _ | ⟨m₁, _ | ⟨m₂, _ | ⟨m₃, pre⟩⟩⟩
  · cases hsplit
  · cases hsplit
  · cases hsplit
    exact ⟨_, _, List.mem_cons_of_mem _ List.mem_cons_self⟩
  · rcases pre with _ | ⟨m₄, pre⟩
    · cases hsplit
      exact ⟨_, _, List.mem_cons_self⟩
    · simp [overtakingMessages] at hsplit

theorem delivered_iff_receivedFirst_overtaking :
    ((Application.new genesisConfig).processMessages Library.Sha256.sha256
        overtakingMessages).Total anyAnswer () fun tr self' _ =>
      Delivered (Application.new genesisConfig) [firstProposal, secondProposal] tr self' := by
  have hmessages : Interleaves overtakingMessages [firstProposal, secondProposal] :=
    { finalizes := rfl
      receives := List.Perm.swap _ _ _
      only := by simp [overtakingMessages, firstReceive, finalizeOf, receiveOf] }
  rw [delivered_iff_receivedFirst twoProposals_nextBlocks hmessages]
  refine ⟨overtakingMessages_receivedFirst, by decide, ?_⟩
  have hfirst : HasBloom firstProposal.payload := List.length_replicate
  have hsecond : HasBloom secondProposal.payload := List.length_replicate
  simp only [List.forall_mem_cons]
  exact ⟨hfirst, hsecond, nofun⟩

theorem exists_not_delivered
    (h : ((self.processMessages sha256 messages).run acceptingEnv ()).any
      (fun r => decide (broadcasts r.1 ≠ rs.map ProposedBlock.block)) = true) :
    ∃ tr app', (self.processMessages sha256 messages).Exec anyAnswer () tr app' () ∧
      ¬ Delivered self rs tr app' := by
  obtain ⟨tr, app', hexec, hlost⟩ := Prog.exists_exec_of_run acceptingEnv
    (self.processMessages sha256 messages)
    (fun tr _ => decide (broadcasts tr ≠ rs.map ProposedBlock.block)) h
  exact ⟨tr, app', hexec, fun hdelivered => of_decide_eq_true hlost hdelivered.1⟩

/-- The finalization overtakes the block it finalizes, and the block is lost. -/
theorem finalizedFirst_not_delivered :
    NextBlocks (Application.new genesisConfig) [firstProposal] ∧
      Interleaves [.finalize firstProposal.digest, firstReceive] [firstProposal] ∧
      firstProposal.digest =
        computeDigest Library.Sha256.sha256 firstProposal.block.blockHash ∧
      ∃ tr app', ((Application.new genesisConfig).processMessages Library.Sha256.sha256
          [.finalize firstProposal.digest, firstReceive]).Exec anyAnswer () tr app' () ∧
        ¬ Delivered (Application.new genesisConfig) [firstProposal] tr app' := by
  refine ⟨firstProposal_nextBlocks, ⟨rfl, List.Perm.refl _, ?_⟩, rfl, ?_⟩
  · simp [firstReceive, finalizeOf, receiveOf]
  · exact exists_not_delivered (by decide +kernel)

end Examples

end Rkb.Consensus.MessageOrder
