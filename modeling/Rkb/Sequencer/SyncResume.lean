import Rkb.Sequencer.SyncPlan

namespace Rkb.Sequencer.SyncResume

open Rkb.Library.Bytes
open Rkb.Library.Program
open Rkb.Library.Text
open Rkb.Types.Blocks
open Rkb.Execution.Errors
open Rkb.Celestia.Blobs
open Rkb.Celestia.Index
open Rkb.Consensus.ActorRuns
open Rkb.Sequencer.Sync
open Rkb.Sequencer.SyncPlan
open Rkb.Node.Effects
open Rkb.Node.Shared

/-- A process after `init_components` whose finality tracker has seen the given height. -/
def processAt (genesisHash : B256) (indexFile : Option (List Char)) (daHeight : UInt64) :
    NodeState :=
  { NodeState.initialized genesisHash indexFile with tracker := ⟨∅, daHeight⟩ }

/-- `init_from_celestia` up to a crash after `n` blocks of `sync_block_batch`. -/
def interrupted (json : IndexJson) (celestia : CelestiaClient) (n : Nat)
    (genesisDaHeight : UInt64) : NodeProg (Except Report (Option UInt64)) :=
  initWith json celestia (fun index blocks => syncBlockBatch json index (blocks.take n))
    genesisDaHeight

section Prefixes

variable {sem : Sem NodeOp Ans NodeState} {json : IndexJson} {celestia : CelestiaClient}

/-- Every execution of `q` that succeeds begins with one of `p` that succeeds. -/
def Begins {ε ε' α β : Type} (sem : Sem NodeOp Ans NodeState) (p : NodeProg (Except ε α))
    (q : NodeProg (Except ε' β)) : Prop :=
  ∀ s tr b s', q.Exec sem s tr (.ok b) s' →
    ∃ tr₁ tr₂ a s₁, tr = tr₁ ++ tr₂ ∧ p.Exec sem s tr₁ (.ok a) s₁

variable {ε ε' α β γ : Type}

theorem begins_refl (p : NodeProg (Except ε α)) : Begins sem p p :=
  fun _ tr b s' hexec => ⟨tr, [], b, s', (List.append_nil tr).symm, hexec⟩

theorem begins_bind {p : NodeProg γ} {f : γ → NodeProg (Except ε α)}
    {g : γ → NodeProg (Except ε' β)} (h : ∀ c, Begins sem (f c) (g c)) :
    Begins sem (p >>= f) (p >>= g) := by
  intro s tr b s' hexec
  obtain ⟨tr₁, c, s₁, tr₂, rfl, hp, hg⟩ := Prog.exec_bind.mp hexec
  obtain ⟨tr₃, tr₄, a, s₂, rfl, hf⟩ := h c s₁ tr₂ b s' hg
  refine ⟨tr₁ ++ tr₃, tr₄, a, s₂, (List.append_assoc _ _ _).symm, ?_⟩
  exact Prog.exec_bind.mpr ⟨tr₁, c, s₁, tr₃, rfl, hp, hf⟩

theorem begins_of_bind {p : NodeProg (Except ε α)} {f : Except ε α → NodeProg (Except ε' β)}
    (herror : ∀ e, ∃ e', f (.error e) = Prog.pure (.error e')) : Begins sem p (p >>= f) := by
  intro s tr b s' hexec
  obtain ⟨tr₁, r, s₁, tr₂, rfl, hp, hf⟩ := Prog.exec_bind.mp hexec
  cases r with
  | error e =>
      obtain ⟨e', he⟩ := herror e
      rw [he] at hf
      obtain ⟨-, ⟨⟩, -⟩ := hf
  | ok a => exact ⟨tr₁, tr₂, a, s₁, rfl, hp⟩

theorem Begins.map {δ : Type} {p : NodeProg (Except ε α)} {q : NodeProg (Except ε' β)}
    {f : Except ε α → NodeProg (Except ε γ)} {g : Except ε' β → NodeProg (Except ε' δ)}
    (h : Begins sem p q) (hf : ∀ a, ∃ c, f (.ok a) = Prog.pure (.ok c))
    (hg : ∀ e, ∃ e', g (.error e) = Prog.pure (.error e')) :
    Begins sem (p >>= f) (q >>= g) := by
  intro s tr d s' hexec
  obtain ⟨tr₁, tr₂, b, s₁, rfl, hq⟩ := begins_of_bind hg s tr d s' hexec
  obtain ⟨tr₃, tr₄, a, s₂, rfl, hp⟩ := h s tr₁ b s₁ hq
  obtain ⟨c, hc⟩ := hf a
  refine ⟨tr₃, tr₄ ++ tr₂, c, s₂, List.append_assoc _ _ _, ?_⟩
  refine Prog.exec_bind.mpr ⟨tr₃, .ok a, s₂, [], (List.append_nil _).symm, hp, ?_⟩
  rw [hc]
  exact ⟨rfl, rfl, rfl⟩

theorem returns_syncSingleBlock (index : BlockIndex) (block : Block) (celestiaHeight : UInt64)
    (expectedParent : B256) :
    (syncSingleBlock json index block celestiaHeight expectedParent).Returns fun r =>
      ∀ parentHash index', r = .ok (parentHash, index') → parentHash = block.blockHash := by
  refine (Prog.returns_true _).bind fun _ _ => ?_
  refine (Prog.returns_true _).bind fun executed _ => ?_
  split
  · rintro _ _ ⟨⟩
  · refine (Prog.returns_true _).bind fun _ _ => ?_
    refine (Prog.returns_true _).bind fun inserted _ => ?_
    split
    · rintro _ _ ⟨⟩
    · rintro _ _ ⟨rfl, rfl⟩
      rfl

theorem syncBlocks_append (index : BlockIndex) (parentHash : B256) (lastSyncedHeight : UInt64)
    (xs ys : List (UInt64 × Block)) :
    syncBlocks json index parentHash lastSyncedHeight (xs ++ ys) =
      syncBlocks json index parentHash lastSyncedHeight xs >>= fun r =>
        match r with
        | .error e => Prog.pure (.error e)
        | .ok (last, index) => syncBlocks json index (headAfter parentHash xs) last ys := by
  induction xs generalizing index parentHash lastSyncedHeight with
  | nil => rfl
  | cons b xs ih =>
      obtain ⟨celestiaHeight, block⟩ := b
      rw [List.cons_append, syncBlocks, syncBlocks]
      split
      · exact ih _ _ _
      · rw [Prog.bind_assoc]
        refine Prog.bind_congr_of_returns (returns_syncSingleBlock _ _ _ _) ?_
        intro r hr
        cases r with
        | error e => rfl
        | ok r =>
            obtain ⟨parent, index'⟩ := r
            obtain rfl := hr parent index' rfl
            exact ih _ _ _

theorem interrupted_begins (n : Nat) (genesisDaHeight : UInt64) :
    Begins sem (interrupted json celestia n genesisDaHeight)
      (initFromCelestia json celestia genesisDaHeight) := by
  have hbatch : ∀ index blocks, Begins sem (syncBlockBatch json index (blocks.take n))
      (syncBlockBatch json index blocks) := by
    intro index blocks
    refine begins_bind fun current => ?_
    nth_rewrite 2 [← List.take_append_drop n blocks]
    rw [syncBlocks_append]
    exact begins_of_bind fun e => ⟨e, rfl⟩
  rw [← initWith_syncBlockBatch]
  unfold interrupted initWith
  split
  · exact begins_refl _
  · refine begins_bind fun opened => ?_
    cases opened with
    | error e => exact begins_refl _
    | ok index =>
        refine Begins.map ?_ (fun r => ⟨_, rfl⟩) (fun e => ⟨_, rfl⟩)
        refine begins_bind fun currentCelestiaHeight => ?_
        split
        · exact begins_refl _
        · refine begins_bind fun fetched => ?_
          cases fetched with
          | error e => exact begins_refl _
          | ok blocks =>
              simp only
              split
              · exact begins_refl _
              · exact hbatch index blocks

end Prefixes

section Restart

variable {json : IndexJson} {celestia : CelestiaClient} {da : UInt64 → Option (List Blob)}
  {genesisHash : B256} {genesisDaHeight daHeight : UInt64} {n : Nat}

/-- The blocks executed by a sync from an empty index that is killed after `n` blocks. -/
def executedBefore (blocks : List (UInt64 × Block)) (n : Nat) : List (UInt64 × Block) :=
  unindexed (fun _ => false) (blocks.take n)

def executedAfter (blocks : List (UInt64 × Block)) (n : Nat) : List (UInt64 × Block) :=
  unindexed (fun height => decide (height ∈ heights (blocks.take n))) (blocks.drop n)

theorem hasHeight_openedIndex_nil : hasHeight (openedIndex json []) = fun _ => false := by
  funext height
  rw [hasHeight, openedIndex, BlockIndex.replayLines, lines_nil]
  exact congrArg Option.isSome (BlockIndex.getByHeight_new height)

theorem hasHeight_openedIndex_linesOf (blocks : List (UInt64 × Block)) :
    hasHeight (openedIndex json (linesOf json blocks)) =
      fun height => decide (height ∈ heights blocks) := by
  funext height
  have hreplay := BlockIndex.replayLines_flatMap json BlockIndex.new
    (blocks.map fun b => syncEntry b.2 b.1)
  have hget := BlockIndex.getByHeight_foldl_isSome BlockIndex.new
    (blocks.map fun b => syncEntry b.2 b.1) height
  rw [← hreplay, BlockIndex.getByHeight_new, List.map_map] at hget
  exact hget.trans (Bool.false_or _)

theorem heights_executedBefore (blocks : List (UInt64 × Block)) (height : UInt64) :
    height ∈ heights (executedBefore blocks n) ↔ height ∈ heights (blocks.take n) := by
  simpa [executedBefore] using
    @indexed_or_mem_unindexed (fun _ => false) (blocks.take n) height

theorem unindexed_eq (blocks : List (UInt64 × Block)) :
    unindexed (fun _ => false) blocks =
      executedBefore blocks n ++ executedAfter blocks n := by
  nth_rewrite 1 [← List.take_append_drop n blocks]
  rw [unindexed_append]
  rfl

theorem unindexed_restarted (blocks : List (UInt64 × Block)) :
    unindexed (fun height => decide (height ∈ heights (executedBefore blocks n))) blocks =
      executedAfter blocks n := by
  have hsplit : ∀ indexed, unindexed indexed blocks =
      unindexed indexed (blocks.take n ++ blocks.drop n) := by
    intro indexed
    rw [List.take_append_drop]
  simp only [heights_executedBefore]
  rw [hsplit, unindexed_append, unindexed_eq_nil, List.nil_append, executedAfter]
  · simp only [Bool.or_self]
  · intro b hb
    exact decide_eq_true (List.mem_map_of_mem hb)

theorem succeeds_interrupted {s : NodeState} (n : Nat) (genesisDaHeight : UInt64) :
    (interrupted json celestia n genesisDaHeight).Succeeds (servedSem genesisHash da) s
      fun _ s' => Synced json s (unindexed (hasHeight (openedIndex json (indexText s)))
        ((toSync celestia da genesisDaHeight s.tracker.finalizedHeight).take n)) s' :=
  succeeds_initWith (List.take n) List.take_nil
    (fun _ blocks _ hfile => succeeds_syncBlockBatch hfile (blocks.take n)) genesisDaHeight

theorem same_iff_hashes_subset (head : B256) (before after : List (UInt64 × Block)) :
    (headAfter head after = headAfter head (before ++ after) ∧
        ∅ ∪ hashes after = ∅ ∪ hashes (before ++ after)) ↔
      ∀ b ∈ before, ∃ b' ∈ after, b'.2.blockHash = b.2.blockHash := by
  have hsubset : ∅ ∪ hashes after = ∅ ∪ hashes (before ++ after) ↔
      hashes before ⊆ hashes after := by
    rw [Finset.empty_union, Finset.empty_union, hashes_append, eq_comm,
      Finset.union_eq_right]
  have hmem : hashes before ⊆ hashes after ↔
      ∀ b ∈ before, ∃ b' ∈ after, b'.2.blockHash = b.2.blockHash := by
    constructor
    · intro h b hb
      exact mem_hashes.mp (h (mem_hashes.mpr ⟨b, hb, rfl⟩))
    · intro h hash hhash
      obtain ⟨b, hb, rfl⟩ := mem_hashes.mp hhash
      exact mem_hashes.mpr (h b hb)
  rw [hsubset, hmem]
  refine and_iff_right_of_imp ?_
  intro h
  cases after with
  | nil =>
      cases before with
      | nil => rfl
      | cons b before =>
          obtain ⟨b', hb', -⟩ := h b List.mem_cons_self
          exact absurd hb' List.not_mem_nil
  | cons b after => rw [headAfter_append, headAfter_congr (List.cons_ne_nil b after)]

variable {full crashed resumed : NodeState} {indexFile : Option (List Char)}
  {trFull trCrashed trResumed : List NodeEvent} {rFull rCrashed rResumed : Option UInt64}

/-- The restarted sync ends as an uninterrupted one exactly when it executes again
whatever had been executed before the crash. -/
theorem resumed_iff_executed_again (hempty : indexFile.getD [] = [])
    (hfull : (initFromCelestia json celestia genesisDaHeight).Exec (servedSem genesisHash da)
      (processAt genesisHash indexFile daHeight) trFull (.ok rFull) full)
    (hcrashed : (interrupted json celestia n genesisDaHeight).Exec (servedSem genesisHash da)
      (processAt genesisHash indexFile daHeight) trCrashed (.ok rCrashed) crashed)
    (hresumed : (initFromCelestia json celestia genesisDaHeight).Exec (servedSem genesisHash da)
      (processAt genesisHash crashed.indexFile daHeight) trResumed (.ok rResumed) resumed) :
    (resumed.forkchoice.head = full.forkchoice.head ∧ resumed.executed = full.executed) ↔
      ∀ b ∈ executedBefore (toSync celestia da genesisDaHeight daHeight) n,
        ∃ b' ∈ executedAfter (toSync celestia da genesisDaHeight daHeight) n,
          b'.2.blockHash = b.2.blockHash := by
  have hfirst : indexText (processAt genesisHash indexFile daHeight) = [] := hempty
  have hfull' := succeeds_initFromCelestia genesisDaHeight _ _ _ hfull rFull rfl
  have hcrashed' := succeeds_interrupted n genesisDaHeight _ _ _ hcrashed rCrashed rfl
  have hresumed' := succeeds_initFromCelestia genesisDaHeight _ _ _ hresumed rResumed rfl
  have hagain : indexText (processAt genesisHash crashed.indexFile daHeight) =
      linesOf json (executedBefore (toSync celestia da genesisDaHeight daHeight) n) := by
    have hindex := hcrashed'.index
    rw [hfirst, List.nil_append, hasHeight_openedIndex_nil] at hindex
    exact hindex
  rw [hfirst, hasHeight_openedIndex_nil] at hfull'
  rw [hagain, hasHeight_openedIndex_linesOf] at hresumed'
  replace hfull' : Synced json (processAt genesisHash indexFile daHeight)
      (executedBefore (toSync celestia da genesisDaHeight daHeight) n ++
        executedAfter (toSync celestia da genesisDaHeight daHeight) n) full := by
    rw [← unindexed_eq]
    exact hfull'
  replace hresumed' : Synced json (processAt genesisHash crashed.indexFile daHeight)
      (executedAfter (toSync celestia da genesisDaHeight daHeight) n) resumed := by
    rw [← unindexed_restarted]
    exact hresumed'
  generalize executedBefore (toSync celestia da genesisDaHeight daHeight) n = before at *
  generalize executedAfter (toSync celestia da genesisDaHeight daHeight) n = after at *
  rw [hresumed'.head, hfull'.head, hresumed'.executed, hfull'.executed]
  exact same_iff_hashes_subset genesisHash before after

/-- Where different heights have different hashes, that is when the crash came
before the first block. -/
theorem executed_again_iff {blocks : List (UInt64 × Block)}
    (hdistinct : ∀ b ∈ blocks, ∀ b' ∈ blocks, b'.2.blockHash = b.2.blockHash →
      b'.2.height = b.2.height) :
    (∀ b ∈ executedBefore blocks n, ∃ b' ∈ executedAfter blocks n,
      b'.2.blockHash = b.2.blockHash) ↔ blocks.take n = [] := by
  constructor
  · intro h
    by_contra hne
    obtain ⟨b, rest, htake⟩ := List.exists_cons_of_ne_nil hne
    have hb : b ∈ executedBefore blocks n := by
      rw [executedBefore, htake, unindexed]
      exact List.mem_cons_self
    obtain ⟨b', hb', hhash⟩ := h b hb
    have hfirst : b ∈ blocks.take n := unindexed_subset hb
    have hheight := hdistinct b (List.mem_of_mem_take hfirst) b'
      (List.mem_of_mem_drop (unindexed_subset hb')) hhash
    have hnew := not_indexed_of_mem hb'
    rw [hheight, decide_eq_false_iff_not] at hnew
    exact hnew (List.mem_map_of_mem hfirst)
  · intro hempty b hb
    rw [executedBefore, hempty] at hb
    exact absurd hb List.not_mem_nil

end Restart

section Example

/-- The node syncs the only block on Celestia, without a crash or with one after `n` blocks. -/
structure RestartedAt (n : Nat) (full crashed resumed : NodeState) : Prop where
  syncs : ∃ tr r, (initFromCelestia .compact digestClient 5).Exec
    (servedSem FixedBytes.zero oneBlockBackend.blobs)
    (processAt FixedBytes.zero none 5) tr (.ok r) full
  crashes : ∃ tr r, (interrupted .compact digestClient n 5).Exec
    (servedSem FixedBytes.zero oneBlockBackend.blobs)
    (processAt FixedBytes.zero none 5) tr (.ok r) crashed
  restarts : ∃ tr r, (initFromCelestia .compact digestClient 5).Exec
    (servedSem FixedBytes.zero oneBlockBackend.blobs)
    (processAt FixedBytes.zero crashed.indexFile 5) tr (.ok r) resumed

theorem exists_restartedAt {n : Nat} {file : List Char} {head : B256}
    (hcrashes : ((interrupted IndexJson.compact digestClient n 5).run
      (acceptingNode oneBlockBackend) (processAt FixedBytes.zero none 5)).any
      (fun r => r.2.1.isOk && decide (r.2.2.indexFile = some file)) = true)
    (hresumes : ((initFromCelestia IndexJson.compact digestClient 5).run
      (acceptingNode oneBlockBackend) (processAt FixedBytes.zero (some file) 5)).any
      (fun r => r.2.1.isOk && decide (r.2.2.forkchoice.head = head)) = true) :
    ∃ full crashed resumed, RestartedAt n full crashed resumed ∧
      full.forkchoice.head = (chainBlock 1).blockHash ∧ resumed.forkchoice.head = head := by
  obtain ⟨trFull, rFull, full, hfull, hhead⟩ := Prog.exists_success_of_check
    (acceptingNode_served oneBlockBackend) (initFromCelestia IndexJson.compact digestClient 5)
    (processAt FixedBytes.zero none 5)
    (fun s => decide (s.forkchoice.head = (chainBlock 1).blockHash)) (by decide +kernel)
  obtain ⟨trCrashed, rCrashed, crashed, hcrashed, hfile⟩ := Prog.exists_success_of_check
    (acceptingNode_served oneBlockBackend) (interrupted IndexJson.compact digestClient n 5)
    (processAt FixedBytes.zero none 5) (fun s => decide (s.indexFile = some file)) hcrashes
  obtain ⟨trResumed, rResumed, resumed, hresumed, hlast⟩ := Prog.exists_success_of_check
    (acceptingNode_served oneBlockBackend) (initFromCelestia IndexJson.compact digestClient 5)
    (processAt FixedBytes.zero (some file) 5)
    (fun s => decide (s.forkchoice.head = head)) hresumes
  rw [← of_decide_eq_true hfile] at hresumed
  exact ⟨full, crashed, resumed, ⟨⟨_, _, hfull⟩, ⟨_, _, hcrashed⟩, ⟨_, _, hresumed⟩⟩,
    of_decide_eq_true hhead, of_decide_eq_true hlast⟩

theorem exists_restartedAt_start : ∃ full crashed resumed, RestartedAt 0 full crashed resumed ∧
    full.forkchoice.head = (chainBlock 1).blockHash ∧
    resumed.forkchoice.head = (chainBlock 1).blockHash :=
  @exists_restartedAt 0 [] (chainBlock 1).blockHash (by decide +kernel) (by decide +kernel)

theorem exists_restartedAt_end : ∃ full crashed resumed, RestartedAt 1 full crashed resumed ∧
    full.forkchoice.head = (chainBlock 1).blockHash ∧
    resumed.forkchoice.head = FixedBytes.zero :=
  @exists_restartedAt 1 oneBlockFile FixedBytes.zero (by decide +kernel) (by decide +kernel)

def ResumesIff (n : Nat) (full resumed : NodeState) : Prop :=
  (resumed.forkchoice.head = full.forkchoice.head ∧ resumed.executed = full.executed) ↔
    ∀ b ∈ executedBefore (toSync digestClient oneBlockBackend.blobs 5 5) n,
      ∃ b' ∈ executedAfter (toSync digestClient oneBlockBackend.blobs 5 5) n,
        b'.2.blockHash = b.2.blockHash

theorem resumed_iff_executed_again_oneBlock :
    (∃ full resumed, full.forkchoice.head = (chainBlock 1).blockHash ∧
      resumed.forkchoice.head = (chainBlock 1).blockHash ∧ ResumesIff 0 full resumed) ∧
    ∃ full resumed, full.forkchoice.head = (chainBlock 1).blockHash ∧
      resumed.forkchoice.head = FixedBytes.zero ∧ ResumesIff 1 full resumed := by
  constructor
  · obtain ⟨full, crashed, resumed, h, hhead, hlast⟩ := exists_restartedAt_start
    obtain ⟨⟨_, _, hfull⟩, ⟨_, _, hcrashed⟩, _, _, hresumed⟩ := h
    exact ⟨full, resumed, hhead, hlast,
      resumed_iff_executed_again rfl hfull hcrashed hresumed⟩
  · obtain ⟨full, crashed, resumed, h, hhead, hlast⟩ := exists_restartedAt_end
    obtain ⟨⟨_, _, hfull⟩, ⟨_, _, hcrashed⟩, _, _, hresumed⟩ := h
    exact ⟨full, resumed, hhead, hlast,
      resumed_iff_executed_again rfl hfull hcrashed hresumed⟩

/-- The only block is synced before the crash; the restarted process skips it. -/
theorem crash_loses_head :
    ¬ ∀ (json : IndexJson) (celestia : CelestiaClient) (da : UInt64 → Option (List Blob))
      (genesisHash : B256) (genesisDaHeight daHeight : UInt64) (n : Nat)
      (full crashed resumed : NodeState) (trFull trCrashed trResumed : List NodeEvent)
      (rFull rCrashed rResumed : Option UInt64),
      (initFromCelestia json celestia genesisDaHeight).Exec (servedSem genesisHash da)
        (processAt genesisHash none daHeight) trFull (.ok rFull) full →
      (interrupted json celestia n genesisDaHeight).Exec (servedSem genesisHash da)
        (processAt genesisHash none daHeight) trCrashed (.ok rCrashed) crashed →
      (initFromCelestia json celestia genesisDaHeight).Exec (servedSem genesisHash da)
        (processAt genesisHash crashed.indexFile daHeight) trResumed (.ok rResumed) resumed →
      resumed.forkchoice.head = full.forkchoice.head ∧ resumed.executed = full.executed := by
  intro hclaim
  obtain ⟨full, crashed, resumed, h, hhead, hlast⟩ := exists_restartedAt_end
  obtain ⟨⟨_, _, hfull⟩, ⟨_, _, hcrashed⟩, _, _, hresumed⟩ := h
  have hsame := hclaim _ _ _ _ _ _ _ _ _ _ _ _ _ _ _ _ hfull hcrashed hresumed
  rw [hhead, hlast] at hsame
  exact absurd hsame.1 (by decide +kernel)

end Example

end Rkb.Sequencer.SyncResume
