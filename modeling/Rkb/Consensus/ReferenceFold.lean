import Rkb.Consensus.FinalizedChain
import Rkb.Consensus.MessageOrder

namespace Rkb.Consensus.ReferenceFold

open Rkb.Types.Blocks
open Rkb.Consensus.Messages
open Rkb.Consensus.Actor
open Rkb.Consensus.ActorSteps
open Rkb.Consensus.ActorRuns
open Rkb.Consensus.DigestBinding
open Rkb.Consensus.Agreement
open Rkb.Consensus.FinalizedChain
open Rkb.Consensus.MessageOrder

/-- The abstract chain: the height of the next block, the hash of the last one,
and the blocks emitted so far. -/
structure Chain where
  height : UInt64
  lastHash : B256
  emitted : List Block

variable (B : AppDigest → Option Block)

/-- A digest is taken when its block is the next one, and dropped otherwise. -/
def Chain.take (self : Chain) (digest : AppDigest) : Chain :=
  match B digest with
  | none => self
  | some block =>
      if block.height = self.height then
        { height := self.height + 1
          lastHash := block.blockHash
          emitted := self.emitted ++ [block] }
      else self

def reference (config : ApplicationConfig) (digests : List AppDigest) : Chain :=
  digests.foldl (Chain.take B) ⟨config.initialHeight, config.initialHash, []⟩

/-- The step receives a block under the digest, or completes a proposal of it. -/
def Introduces (t : ActorTransition) (digest : AppDigest) : Prop :=
  (∃ block payload, t.label.1 = .receiveBlock digest block payload) ∨
    ∃ proposed ∈ relayed t.label.2, proposed.digest = digest

/-- What the step receives or proposes is the block that `B` gives for its digest. -/
def Binds (t : ActorTransition) : Prop :=
  (∀ digest block payload, t.label.1 = .receiveBlock digest block payload →
    B digest = some block) ∧
    ∀ proposed ∈ relayed t.label.2, B proposed.digest = some proposed.block

/-- A digest was received or proposed before it is finalized. -/
def IntroducedFirst (ts : List ActorTransition) : Prop :=
  ∀ us t vs digest, ts = us ++ t :: vs → t.label.1 = .finalize digest →
    ∃ u ∈ us, Introduces u digest

variable (config : ApplicationConfig)

/-- The actor after some steps and the reference after their finalizations. A
block that may still be taken is pending; one below the height may be gone. -/
structure Simulates (us : List ActorTransition) (app : Application) : Prop where
  height : app.height = (reference B config (finalizeDigests us)).height
  lastHash : app.lastHash = (reference B config (finalizeDigests us)).lastHash
  emitted : finalizedBlocks us = (reference B config (finalizeDigests us)).emitted
  bound : ∀ d b, app.pendingBlocks.lookup d = some b → B d = some b
  kept : ∀ d b, (∃ u ∈ us, Introduces u d) → d ∉ finalizeDigests us → B d = some b →
    ¬ b.height < app.height → app.pendingBlocks.lookup d = some b

variable {sha256 : List UInt8 → AppDigest} {B} {config} {us ts : List ActorTransition}
  {t : ActorTransition} {self self' : Application}

theorem finalizedBlocks_snoc (us : List ActorTransition) (t : ActorTransition) :
    finalizedBlocks (us ++ [t]) = finalizedBlocks us ++ broadcasts t.label.2 := by
  rw [finalizedBlocks_append]
  exact congrArg _ (List.append_nil _)

theorem finalizeDigests_snoc (us : List ActorTransition) (t : ActorTransition) :
    finalizeDigests (us ++ [t]) = finalizeDigests us ++ (finalizeOf t.label.1).toList := by
  rw [finalizeDigests, List.filterMap_append, finalizeDigests]
  apply congrArg
  rw [List.filterMap_cons]
  cases finalizeOf t.label.1 <;> rfl

theorem reference_snoc (digests : List AppDigest) (digest : AppDigest) :
    reference B config (digests ++ [digest]) =
      (reference B config digests).take B digest := by
  rw [reference, List.foldl_append]
  rfl

theorem take_of_ne {chain : Chain} {digest : AppDigest}
    (h : ∀ b, B digest = some b → b.height ≠ chain.height) : chain.take B digest = chain := by
  unfold Chain.take
  split
  · rfl
  · rename_i block hblock
    exact if_neg (h block hblock)

theorem take_of_eq {chain : Chain} {digest : AppDigest} {block : Block}
    (hblock : B digest = some block) (hheight : block.height = chain.height) :
    chain.take B digest =
      ⟨chain.height + 1, block.blockHash, chain.emitted ++ [block]⟩ := by
  simp only [Chain.take, hblock, if_pos hheight]

theorem simulates_new : Simulates B config [] (Application.new config) where
  height := rfl
  lastHash := rfl
  emitted := rfl
  bound := by
    intro d b h
    simp [Application.new] at h
  kept := by
    rintro d b ⟨u, hu, -⟩
    cases hu

theorem Simulates.idle (hs : Simulates B config us t.pre)
    (hmessage : finalizeOf t.label.1 = none) (hsilent : broadcasts t.label.2 = [])
    (hheight : t.post.height = t.pre.height) (hlast : t.post.lastHash = t.pre.lastHash)
    (hnew : ∀ d b, t.post.pendingBlocks.lookup d = some b →
      t.pre.pendingBlocks.lookup d = some b ∨ B d = some b)
    (hold : ∀ d b, B d = some b → t.pre.pendingBlocks.lookup d = some b →
      t.post.pendingBlocks.lookup d = some b)
    (hintroduces : ∀ d b, B d = some b → Introduces t d →
      t.post.pendingBlocks.lookup d = some b) :
    Simulates B config (us ++ [t]) t.post := by
  have hdigests : finalizeDigests (us ++ [t]) = finalizeDigests us := by
    rw [finalizeDigests_snoc, hmessage]
    exact List.append_nil _
  refine ⟨?_, ?_, ?_, ?_, ?_⟩
  · rw [hdigests, hheight, hs.height]
  · rw [hdigests, hlast, hs.lastHash]
  · rw [hdigests, finalizedBlocks_snoc, hsilent, List.append_nil, hs.emitted]
  · intro d b h
    rcases hnew d b h with h | h
    · exact hs.bound d b h
    · exact h
  · rintro d b ⟨u, hu, hintro⟩ hfresh hb hle
    rcases List.mem_append.mp hu with hu | hu
    · apply hold d b hb
      rw [hdigests] at hfresh
      rw [hheight] at hle
      exact hs.kept d b ⟨u, hu, hintro⟩ hfresh hb hle
    · rw [List.mem_singleton.mp hu] at hintro
      exact hintroduces d b hb hintro

theorem not_introduces (hrelay : relayed t.label.2 = [])
    (hmessage : ∀ d b p, t.label.1 ≠ .receiveBlock d b p) (d : AppDigest) :
    ¬ Introduces t d := by
  rintro (⟨block, payload, h⟩ | ⟨proposed, hmem, -⟩)
  · exact hmessage d block payload h
  · rw [hrelay] at hmem
    cases hmem

theorem Simulates.unchanged (hs : Simulates B config us t.pre)
    (hmessage : finalizeOf t.label.1 = none)
    (hreceive : ∀ d b p, t.label.1 ≠ .receiveBlock d b p) (hsilent : Silent t.label.2)
    (hpending : t.post.pendingBlocks = t.pre.pendingBlocks)
    (hheight : t.post.height = t.pre.height) (hlast : t.post.lastHash = t.pre.lastHash) :
    Simulates B config (us ++ [t]) t.post := by
  apply hs.idle hmessage hsilent.1 hheight hlast
  · intro d b h
    rw [hpending] at h
    exact .inl h
  · intro d b _ h
    rw [hpending]
    exact h
  · intro d b _ hintro
    exact absurd hintro (not_introduces hsilent.2 hreceive d)

theorem Simulates.stores (hs : Simulates B config us t.pre) {digest : AppDigest} {block : Block}
    (hmessage : finalizeOf t.label.1 = none) (hsilent : broadcasts t.label.2 = [])
    (hheight : t.post.height = t.pre.height) (hlast : t.post.lastHash = t.pre.lastHash)
    (hbound : B digest = some block)
    (hlookup : ∀ d, t.post.pendingBlocks.lookup d =
      if d = digest then some block else t.pre.pendingBlocks.lookup d)
    (honly : ∀ d, Introduces t d → d = digest) :
    Simulates B config (us ++ [t]) t.post := by
  have hstored : ∀ b, B digest = some b → t.post.pendingBlocks.lookup digest = some b := by
    intro b hb
    rw [hlookup, if_pos rfl, ← hbound, hb]
  apply hs.idle hmessage hsilent hheight hlast
  · intro d b h
    rw [hlookup] at h
    split at h
    · rename_i hd
      rw [hd, hbound]
      exact .inr h
    · exact .inl h
  · intro d b hb h
    by_cases hd : d = digest
    · rw [hd] at hb ⊢
      exact hstored b hb
    · rw [hlookup, if_neg hd]
      exact h
  · intro d b hb hintro
    obtain rfl := honly d hintro
    exact hstored b hb

theorem Simulates.finalize (hs : Simulates B config us t.pre) {digest : AppDigest}
    {blocks : List Block} (hmessage : t.label.1 = .finalize digest)
    (hrelay : relayed t.label.2 = []) (hblocks : broadcasts t.label.2 = blocks)
    (htake : (reference B config (finalizeDigests us)).take B digest =
      ⟨t.post.height, t.post.lastHash, finalizedBlocks us ++ blocks⟩)
    (hnew : ∀ d b, t.post.pendingBlocks.lookup d = some b →
      t.pre.pendingBlocks.lookup d = some b)
    (hold : ∀ d b, d ≠ digest → ¬ b.height < t.post.height →
      (¬ b.height < t.pre.height → t.pre.pendingBlocks.lookup d = some b) →
      t.post.pendingBlocks.lookup d = some b) :
    Simulates B config (us ++ [t]) t.post := by
  have hdigests : finalizeDigests (us ++ [t]) = finalizeDigests us ++ [digest] := by
    rw [finalizeDigests_snoc, hmessage]
    rfl
  have hreference : reference B config (finalizeDigests (us ++ [t])) =
      ⟨t.post.height, t.post.lastHash, finalizedBlocks us ++ blocks⟩ := by
    rw [hdigests, reference_snoc, htake]
  refine ⟨?_, ?_, ?_, ?_, ?_⟩
  · rw [hreference]
  · rw [hreference]
  · rw [hreference, finalizedBlocks_snoc, hblocks]
  · intro d b h
    exact hs.bound d b (hnew d b h)
  · rintro d b ⟨u, hu, hintro⟩ hfresh hb hle
    rw [hdigests, List.mem_append, List.mem_singleton, not_or] at hfresh
    apply hold d b hfresh.2 hle
    intro hle'
    apply hs.kept d b _ hfresh.1 hb hle'
    rcases List.mem_append.mp hu with hu | hu
    · exact ⟨u, hu, hintro⟩
    · rw [List.mem_singleton.mp hu] at hintro
      have hnot := not_introduces hrelay (by simp [hmessage]) d
      exact absurd hintro hnot

theorem not_lt_of_not_lt_succ {x h : UInt64} (hsmall : h.toNat + 1 < 2 ^ 64)
    (hx : ¬ x < h + 1) : ¬ x < h := by
  rw [UInt64.lt_iff_toNat_lt, toNat_succ hsmall] at hx
  rw [UInt64.lt_iff_toNat_lt]
  omega

theorem Simulates.step (hs : Simulates B config us t.pre)
    (hstep : ActorStep sha256 t.pre t.label t.post) (hbinds : Binds B t)
    (hfinalize : ∀ d, t.label.1 = .finalize d →
      (∃ u ∈ us, Introduces u d) ∧ d ∉ finalizeDigests us)
    (hsmall : t.pre.height.toNat + 1 < 2 ^ 64) :
    Simulates B config (us ++ [t]) t.post := by
  obtain ⟨self, ⟨message, tr⟩, self'⟩ := t
  have houtcome := hstep.outcome
  simp only at houtcome hs hbinds hfinalize hsmall ⊢
  cases houtcome with
  | genesis v hsilent => exact hs.unchanged rfl (by simp) hsilent rfl rfl rfl
  | proposedNull hsilent => exact hs.unchanged rfl (by simp) hsilent rfl rfl rfl
  | verified v hsilent => exact hs.unchanged rfl (by simp) hsilent rfl rfl rfl
  | broadcast => exact hs.unchanged rfl (by simp) ⟨rfl, rfl⟩ rfl rfl rfl
  | proposed payload hbroadcast hrelay =>
      have hproposed : B (computeDigest sha256 payload.blockHash) =
          some (buildBlockFromPayload payload) :=
        hbinds.2 (proposedBlock sha256 payload) (by simp [hrelay])
      apply hs.stores rfl hbroadcast rfl rfl hproposed
      · exact fun d => lookup_withProposal sha256
      · rintro d (⟨block, p, hmessage⟩ | ⟨proposed, hmem, rfl⟩)
        · cases hmessage
        · rw [hrelay, List.mem_singleton] at hmem
          rw [hmem]
          rfl
  | @alreadyPending digest block payload hpending =>
      obtain ⟨b', hb'⟩ := Option.isSome_iff_exists.mp (Finmap.lookup_isSome.mpr hpending)
      apply hs.idle rfl rfl rfl rfl
      · exact fun d b h => .inl h
      · exact fun d b _ h => h
      · rintro d b hb (⟨block, p, hmessage⟩ | ⟨proposed, hmem, -⟩)
        · cases hmessage
          have hsame := hs.bound digest b' hb'
          rw [hb, Option.some.injEq] at hsame
          rw [hsame]
          exact hb'
        · cases hmem
  | @received digest block payload _ v hpending hsilent =>
      apply hs.stores rfl hsilent.1 rfl rfl (hbinds.1 digest block payload rfl)
      · exact fun d => lookup_stored
      · rintro d (⟨block', p, hmessage⟩ | ⟨proposed, hmem, -⟩)
        · cases hmessage
          rfl
        · rw [hsilent.2] at hmem
          cases hmem
  | @unknown digest hlookup =>
      obtain ⟨hintro, hfresh⟩ := hfinalize digest rfl
      refine hs.finalize rfl rfl rfl ?_ ?_ ?_
      · simp only [broadcasts, List.filterMap_nil]
        rw [List.append_nil, hs.emitted, hs.height, hs.lastHash]
        apply take_of_ne
        -- the next block would still be pending
        intro b hb hheight
        have hpending := hs.kept digest b hintro hfresh hb (by
          rw [hs.height, hheight]
          exact UInt64.lt_irrefl _)
        rw [hlookup] at hpending
        cases hpending
      · exact fun d b h => h
      · exact fun d b _ hle hkept => hkept hle
  | @wrongHeight digest block hlookup hheight =>
      refine hs.finalize rfl rfl rfl ?_ ?_ ?_
      · simp only [dropped, broadcasts, List.filterMap_nil]
        rw [List.append_nil, hs.emitted, hs.height, hs.lastHash]
        apply take_of_ne
        intro b hb
        rw [hs.bound digest block hlookup, Option.some.injEq] at hb
        rw [← hb, ← hs.height]
        exact hheight
      · intro d b h
        simp only [lookup_dropped] at h
        split at h
        · cases h
        · exact h
      · intro d b hne hle hkept
        simp only [lookup_dropped]
        rw [if_neg hne]
        exact hkept hle
  | @finalized digest block _ hlookup hheight hbroadcast hrelay _ =>
      apply hs.finalize rfl hrelay hbroadcast
      · simp only [advanced_height, advanced_lastHash]
        rw [take_of_eq (hs.bound digest block hlookup) (hheight.trans hs.height), hheight,
          hs.height, hs.emitted]
      · exact fun d b h => (lookup_advanced.mp h).2.1
      · intro d b hne hle hkept
        simp only [advanced_height] at hle
        refine lookup_advanced.mpr ⟨hne, hkept ?_, hle⟩
        rw [← hheight] at hsmall ⊢
        exact not_lt_of_not_lt_succ hsmall hle

/-- The actor refines the reference: what it finalizes, and its height and last
hash after each message, are those of the fold over the finalized digests. -/
theorem finalizedBlocks_eq_reference (B : AppDigest → Option Block)
    (hrun : ActorRun sha256 (Application.new config) ts self')
    (hbinds : ∀ t ∈ ts, Binds B t) (hfirst : IntroducedFirst ts)
    (hnodup : (finalizeDigests ts).Nodup)
    (hheight : ∀ t ∈ ts, t.pre.height.toNat < 2 ^ 64 - 1) :
    finalizedBlocks ts = (reference B config (finalizeDigests ts)).emitted ∧
      ∀ us t vs, ts = us ++ t :: vs →
        t.post.height = (reference B config (finalizeDigests (us ++ [t]))).height ∧
          t.post.lastHash = (reference B config (finalizeDigests (us ++ [t]))).lastHash := by
  -- the simulation holds after every beginning of the run
  have hsimulates : ∀ us app, us <+: ts → ActorRun sha256 (Application.new config) us app →
      Simulates B config us app := by
    intro us app hus hbegins
    refine hbegins.history (Simulates B config) simulates_new ?_
    rintro vs t hvs hstep hsim
    obtain ⟨ws, hts⟩ := hvs.trans hus
    have hsplit : ts = vs ++ t :: ws := by rw [← hts, List.append_assoc, List.singleton_append]
    have hmem : t ∈ ts := by simp [hsplit]
    apply hsim.step hstep (hbinds t hmem)
    · intro d hmessage
      refine ⟨hfirst vs t ws d hsplit hmessage, ?_⟩
      have hdigests : (finalizeDigests (vs ++ [t])).Nodup := by
        rw [← hts, finalizeDigests, List.filterMap_append] at hnodup
        exact hnodup.of_append_left
      rw [finalizeDigests_snoc, hmessage] at hdigests
      intro hd
      exact List.disjoint_of_nodup_append hdigests hd (List.mem_singleton_self d)
    · have hlt := hheight t hmem
      omega
  refine ⟨(hsimulates ts self' List.prefix_rfl hrun).emitted, ?_⟩
  rintro us t vs rfl
  have hbegins : us ++ [t] <+: us ++ t :: vs := ⟨vs, (List.append_cons us t vs).symm⟩
  have hsim := hsimulates (us ++ [t]) t.post hbegins hrun.at_step.2
  exact ⟨hsim.height, hsim.lastHash⟩

section Examples

def twoBlocks (digest : AppDigest) : Option Block :=
  if digest = digest₁ then some (buildBlockFromPayload firstPayload)
  else if digest = digest₂ then some (buildBlockFromPayload secondPayload)
  else none

/-- Both blocks are received, and consensus finalizes the second before the first. -/
def competingMessages : List Message :=
  [receive₁, receive₂, .finalize digest₂, .finalize digest₁]

theorem introducedFirst_of_messages {messages : List Message}
    (hmessages : ts.map (fun t => t.label.1) = messages) (hfirst : ReceivedFirst messages) :
    IntroducedFirst ts := by
  rintro us t vs digest rfl hmessage
  rw [List.map_append, List.map_cons, hmessage] at hmessages
  obtain ⟨block, payload, hmem⟩ := hfirst _ digest _ hmessages.symm
  obtain ⟨u, hu, hu'⟩ := List.mem_map.mp hmem
  exact ⟨u, hu, .inl ⟨block, payload, hu'⟩⟩

theorem receivedFirst_competing : ReceivedFirst competingMessages := by
  intro pre digest post h
  rcases pre with _ | ⟨m₁, _ | ⟨m₂, _ | ⟨m₃, _ | ⟨m₄, pre⟩⟩⟩⟩
  · simp [competingMessages, receive₁] at h
  · simp [competingMessages, receive₂] at h
  · simp only [competingMessages, List.cons_append, List.nil_append, List.cons.injEq,
      Message.finalize.injEq] at h
    obtain ⟨-, rfl, rfl, -⟩ := h
    exact ⟨_, _, List.mem_cons_of_mem _ List.mem_cons_self⟩
  · simp only [competingMessages, List.cons_append, List.nil_append, List.cons.injEq,
      Message.finalize.injEq] at h
    obtain ⟨rfl, -, -, rfl, -⟩ := h
    exact ⟨_, _, List.mem_cons_self⟩
  · simp [competingMessages] at h

theorem finalizedBlocks_eq_reference_competing :
    ∃ (ts : List ActorTransition) (self' : Application),
      ActorRun Library.Sha256.sha256 (Application.new genesisConfig) ts self' ∧
      ts.map (fun t => t.label.1) = competingMessages ∧
      finalizedBlocks ts = [buildBlockFromPayload secondPayload] ∧
      finalizedBlocks ts =
        (reference twoBlocks genesisConfig (finalizeDigests ts)).emitted := by
  obtain ⟨ts, self', hrun, hmessages, hcheck⟩ :=
    exists_run_of_replay Library.Sha256.sha256 acceptingEnv (Application.new genesisConfig)
      competingMessages (fun ts _ => decide (finalizedBlocks ts =
        [buildBlockFromPayload secondPayload] ∧ finalizeDigests ts = [digest₂, digest₁] ∧
        ∀ t ∈ ts, relayed t.label.2 = [] ∧ t.pre.height.toNat < 2 ^ 64 - 1))
      (by decide +kernel)
  obtain ⟨hblocks, hdigests, hsteps⟩ := of_decide_eq_true hcheck
  have hbinds : ∀ t ∈ ts, Binds twoBlocks t := by
    intro t ht
    refine ⟨?_, ?_⟩
    · intro digest block payload hmessage
      have hmem : .receiveBlock digest block payload ∈ competingMessages := by
        rw [← hmessages, ← hmessage]
        exact List.mem_map_of_mem ht
      simp only [competingMessages, receive₁, receive₂, List.mem_cons, reduceCtorEq,
        Message.receiveBlock.injEq, List.not_mem_nil, or_false] at hmem
      rcases hmem with ⟨rfl, rfl, rfl⟩ | ⟨rfl, rfl, rfl⟩
      · decide +kernel
      · decide +kernel
    · intro proposed hmem
      rw [(hsteps t ht).1] at hmem
      cases hmem
  refine ⟨ts, self', hrun, hmessages, hblocks, ?_⟩
  have hreference := finalizedBlocks_eq_reference twoBlocks hrun hbinds
    (introducedFirst_of_messages hmessages receivedFirst_competing)
    (by rw [hdigests]; decide +kernel) (fun t ht => (hsteps t ht).2)
  exact hreference.1

end Examples

end Rkb.Consensus.ReferenceFold
