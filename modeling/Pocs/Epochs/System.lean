import Pocs.Lib.Vault
import Pocs.Epochs.Contract
import Pocs.Epochs.Spends

/-! # Runs of the pool with epochs

A step is a call that succeeds, whose proofs stand for witnesses that the circuits accept with written low leaves.
The notes that were minted and the spends are kept beside the storage. The nullifiers of the spends of an epoch
are those of its tree (`NullifierInv`), so that a note of value is spent once over all epochs. -/

namespace Pocs.Epochs

open Compliance (BnField Word Address Ideal ofU64 merkleHash)
open Offchain (OrderedWords)

/-- A note that a call has spent, and the key and the epoch of its nullifier. -/
structure Spend (F : Type) where
  note : Note F
  spendingKey : F
  epoch : Nat

/-- The storage, and what the calls have done so far. -/
structure World (F T τ : Type) extends Chain T τ where
  minted : List (Note F)
  spends : List (Spend F)
  logs : List PoolEvent

/-- The calls, and what happens to the tokens elsewhere. -/
inductive Call where
  | deposit (sender : Address) (p : DepositParams)
  | transfer (p : TransferParams)
  | withdraw (p : WithdrawParams)
  | rolloverEpoch (sender : Address)
  | admin (sender : Address) (call : AdminCall)
  | elsewhere

section
variable {F T τ : Type} [EpochField F]

def Spend.nullifier (hash : List F → F) (s : Spend F) : F :=
  nullifierOf hash (s.note.commitment hash) s.spendingKey (Scalar.ofNat s.epoch)

def TransferWitness.spends (hash : List F → F) (wit : TransferWitness F) (pub : TransferPublic F) (epoch : Nat) :
    List (Spend F) :=
  [⟨wit.note0 hash pub, wit.spendingKey, epoch⟩, ⟨wit.note1 hash pub, wit.spendingKey, epoch⟩]

namespace World
variable (w : World F T τ)

def epoch : Nat := w.pool.currentEpoch.toNat

/-- The nullifiers of the spends of an epoch, in their order. -/
def nullifiers (hash : List F → F) (e : Nat) : List F :=
  (w.spends.filter fun s => s.epoch = e).map (Spend.nullifier hash)

def commitments (hash : List F → F) : List F := w.minted.map (Note.commitment hash)

end World

def noteValue (token : Address) (n : Note F) : Nat :=
  if n.token = Scalar.ofNat token.toNat then Scalar.toNat n.amount else 0

def World.vault (D : Deployment F T τ) (w : World F T τ) : Vault (Note F) Address where
  minted := w.minted
  consumed := w.spends.map Spend.note
  balance token := (D.token token).balanceOf (w.tokens token) D.address

/-! ## Steps -/

/-- The insertion proof is that of an accepted witness. -/
def Inserts (D : Deployment F T τ) (w : World F T τ) (ns : List Word) (postActiveRoot : Word) : Prop :=
  ∃ pub wit, (w.pool.insertionInputs ns postActiveRoot).map Scalar.ofNat = InsertionPublic.toFields pub ∧
    runInsertions D.hash pub wit = .ok () ∧ Written w.pool.activeLeafCount.toNat wit

/-- The low leaves of a chain proof are written in the trees of their epochs. -/
def ChainWritten (D : Deployment F T τ) (w : World F T τ) (epochCreated : UInt64) (chain : ChainInput F) : Prop :=
  ∀ k fold, chain.chainProof.folds[k]? = some fold →
    fold.low.position < (w.nullifiers D.hash (epochCreated.toNat + k)).length + 1

/-- An accepted call, with the witness behind its proof. -/
inductive Transition (D : Deployment F T τ) (w : World F T τ) : Call → World F T τ → Prop where
  | deposit {sender p chain events pub wit} (ok : deposit D w.toChain sender p = .ok (chain, events))
    (other : sender ≠ D.address) (inputs : (w.pool.depositInputs p).map Scalar.ofNat = DepositPublic.toFields pub)
    (main : depositMain D.hash pub wit = .ok ()) :
    Transition D w (.deposit sender p)
      { toChain := chain, minted := w.minted ++ [wit.note pub], spends := w.spends, logs := w.logs ++ events }
  | transfer {p chain events pub wit} (ok : transfer D w.toChain p = .ok (chain, events))
    (inputs : (w.pool.transferInputs D p).map Scalar.ofNat = TransferPublic.toFields pub)
    (main : transferMain D.hash pub wit = .ok ())
    (inserts : Inserts D w [p.nullifiers.1, p.nullifiers.2] p.postActiveRoot)
    (written0 : ChainWritten D w p.epochCreated.1 wit.in0.chain)
    (written1 : wit.in1.amount ≠ 0 → ChainWritten D w p.epochCreated.2 wit.in1.chain) :
    Transition D w (.transfer p)
      { toChain := chain
        minted := w.minted ++ [wit.out0.note pub.currentEpoch, wit.out1.note pub.currentEpoch]
        spends := w.spends ++ wit.spends D.hash pub w.epoch
        logs := w.logs ++ events }
  | withdraw {p chain events pub wit} (ok : withdraw D w.toChain p = .ok (chain, events))
    (inputs : (w.pool.withdrawInputs D p).map Scalar.ofNat = WithdrawPublic.toFields pub)
    (main : withdrawMain D.hash pub wit = .ok ()) (inserts : Inserts D w [p.nullifier] p.postActiveRoot)
    (written : ChainWritten D w p.epochCreated wit.chain) :
    Transition D w (.withdraw p)
      { toChain := chain
        minted := w.minted
        spends := w.spends ++ [⟨wit.note D.hash pub, wit.spendingKey, w.epoch⟩]
        logs := w.logs ++ events }
  | rolloverEpoch {sender chain events} (ok : rolloverEpoch D w.toChain sender = .ok (chain, events)) :
    Transition D w (.rolloverEpoch sender) { w with toChain := chain, logs := w.logs ++ events }
  | admin {sender call chain events} (ok : AdminCall.run w.toChain sender call = .ok (chain, events)) :
    Transition D w (.admin sender call) { w with toChain := chain, logs := w.logs ++ events }
  | elsewhere {tokens : Address → τ} (kept : ∀ token, (D.token token).balanceOf (w.tokens token) D.address ≤
      (D.token token).balanceOf (tokens token) D.address) : Transition D w .elsewhere { w with tokens := tokens }

/-- The pool as it was deployed. -/
inductive Deployed (D : Deployment F T τ) : World F T τ → Prop where
  | mk {sender p pool} {tokens : Address → τ} (new : ShieldedPoolExt.new D sender p = .ok pool) :
    Deployed D ⟨⟨pool, tokens⟩, [], [], []⟩

/-- The tokens hold less than the field, and the empty root is that of a tree without nullifiers. -/
structure Deployment.Configured (D : Deployment F T τ) : Prop where
  imt : D.imt.Lawful (merkleHash D.hash)
  token : ∀ a, (D.token a).Exact
  supply : ∀ a t x, BnField.canonical F ((D.token a).balanceOf t x) = true
  emptyImtRoot : Scalar.ofNat D.emptyImtRoot = rootOf D.hash []

structure NullifierInv (D : Deployment F T τ) (w : World F T τ) : Prop where
  distinct : ∀ e, Distinct (w.nullifiers D.hash e)
  active : Scalar.ofNat w.pool.activeNullifierRoot = rootOf D.hash (w.nullifiers D.hash w.epoch)
  count : w.pool.activeLeafCount.toNat = (w.nullifiers D.hash w.epoch).length + 1
  frozen : ∀ e < w.epoch, Scalar.ofNat (w.pool.frozenNullifierRoots e) = rootOf D.hash (w.nullifiers D.hash e)
  epoch : ∀ s ∈ w.spends, s.epoch ≤ w.epoch

/-- The note of the spend belongs to its key, and is not younger than the spend. -/
structure Spend.Owned (hash : List F → F) (s : Spend F) : Prop where
  owner : s.note.ownerPubkey = poseidon1 hash s.spendingKey
  created : ∃ k ≤ s.epoch, s.note.epochCreated = Scalar.ofNat k

structure NoteInv (D : Deployment F T τ) (w : World F T τ) : Prop where
  leaves : D.imt.leaves w.pool.tree = w.commitments D.hash
  nodup : w.minted.Nodup
  roots : ∀ r, w.pool.roots.valid r = true →
    Merkle.Spans (merkleHash D.hash) (w.commitments D.hash) (Scalar.ofNat r)
  owned : ∀ s ∈ w.spends, s.note.amount ≠ 0 → s.Owned D.hash

structure Inv (D : Deployment F T τ) (w : World F T τ) : Prop extends NullifierInv D w, NoteInv D w

end

/-! ## Spent notes -/

section
variable {F T τ : Type} [EpochField F] [OrderedWords F] {D : Deployment F T τ} {w w' : World F T τ}

omit [OrderedWords F] in
theorem World.nullifiers_append {ss : List (Spend F)} (hss : ∀ s ∈ ss, s.epoch = w.epoch)
    (hspends : w'.spends = w.spends ++ ss) (hash : List F → F) (e : Nat) : w'.nullifiers hash e =
      w.nullifiers hash e ++ if e = w.epoch then ss.map (Spend.nullifier hash) else [] := by
  rw [nullifiers, hspends, List.filter_append, List.map_append]
  congr 1
  split
  · next h => rw [List.filter_eq_self.mpr fun s hs => decide_eq_true ((hss s hs).trans h.symm)]
  · next h =>
    rw [List.filter_eq_nil_iff.mpr fun s hs he => h ((of_decide_eq_true he).symm.trans (hss s hs))]
    rfl

omit [OrderedWords F] in
theorem World.mem_nullifiers {s : Spend F} (hs : s ∈ w.spends) (hash : List F → F) :
    s.nullifier hash ∈ w.nullifiers hash s.epoch :=
  List.mem_map_of_mem (List.mem_filter.mpr ⟨hs, decide_eq_true rfl⟩)

omit [OrderedWords F] in
theorem NoteInv.known (inv : NoteInv D w) (hL : D.imt.Lawful (merkleHash D.hash)) {root : Word}
    (h : w.pool.isKnownRoot D root = true) : (Scalar.ofNat root : F) = 0 ∨
      Merkle.Spans (merkleHash D.hash) (w.commitments D.hash) (Scalar.ofNat root) := by
  rw [ShieldedPoolExt.isKnownRoot, Bool.or_eq_true, decide_eq_true_eq] at h
  rcases h with rfl | hvalid
  · rw [ShieldedPoolExt.commitmentRoot, BnField.ofNat_toNat, ← inv.leaves]
    exact hL.root_zero_or_spans w.pool.tree
  · exact .inr (inv.roots root hvalid)

/-- A note of value whose chain proof is accepted was not spent in an earlier epoch, and if its nullifier is new
not in this one. -/
theorem Inv.unspent (inv : Inv D w) (H : Ideal D.hash) {note : Note F} {key chainVkHash : F} {created : UInt64}
    {chain : ChainInput F} (howner : note.ownerPubkey = poseidon1 D.hash key)
    (hcreated : note.epochCreated = ofU64 created)
    (hchain : verifyInputChain D.hash chain chainVkHash (note.commitment D.hash) (ofU64 created)
      (ofU64 w.pool.currentEpoch) (Scalar.ofNat (w.pool.expectedChainAccumulator D.hash created)) = .ok ())
    (hwritten : ChainWritten D w created chain)
    (hfresh : (⟨note, key, w.epoch⟩ : Spend F).nullifier D.hash ∉ w.nullifiers D.hash w.epoch) :
    (⟨note, key, w.epoch⟩ : Spend F).Owned D.hash ∧ (note.amount ≠ 0 → note ∉ w.spends.map Spend.note) := by
  have hd := derived_of_main (verifyInputChain_eq_ok.mp hchain).1
  obtain ⟨hle, hfolds⟩ := @Derived.exists_fold _ _ _ H _ _ hd w.pool.toEpochStorage created rfl rfl rfl
  refine ⟨⟨howner, created.toNat, UInt64.le_iff_toNat_le.mp hle, hcreated⟩, fun hamount hspent => ?_⟩
  obtain ⟨s, hs, hnote⟩ := List.mem_map.mp hspent
  have howned := inv.owned s hs (hnote ▸ hamount)
  have hkey : s.spendingKey = key := H.hash1_inj (howned.owner.symm.trans (hnote ▸ howner))
  have hmem := World.mem_nullifiers hs D.hash
  rcases (inv.epoch s hs).lt_or_eq with hearlier | hnow
  · -- the chain proof has folded the tree of that epoch
    obtain ⟨k, hk, hsame⟩ := howned.created
    have hk' : k = created.toNat := Scalar.ofNat_inj (hk.trans_lt (hearlier.trans w.pool.currentEpoch.toNat_lt))
      created.toNat_lt (hsame.symm.trans (hnote ▸ hcreated))
    obtain ⟨fold, hfold, hepoch, hroot⟩ := hfolds s.epoch (hk' ▸ hk) hearlier
    have hchecked := hd.checked fold (List.mem_of_getElem? hfold)
    obtain ⟨-, -, howner', -, -⟩ := H.hash5_inj hchecked.note
    have hfoldKey : fold.spendingKey = key := H.hash1_inj (howner'.symm.trans howner)
    have habsent := hchecked.absent
    rw [hroot, inv.frozen s.epoch hearlier] at habsent
    have hposition := hwritten _ fold hfold
    rw [Nat.add_sub_cancel' (hk' ▸ hk)] at hposition
    have hnew := absent_of_written H (inv.distinct s.epoch) hposition habsent
    rw [Fold.nullifier, hfoldKey, hepoch] at hnew
    rw [Spend.nullifier, hnote, hkey] at hmem
    exact hnew hmem
  · rw [Spend.nullifier, hnote, hkey, hnow] at hmem
    exact hfresh hmem

/-- The nullifiers of an accepted insertion are new. -/
theorem Inserts.new {ns : List Word} {post : Word} (h : Inserts D w ns post) (H : Ideal D.hash)
    (inv : NullifierInv D w) : Distinct (w.nullifiers D.hash w.epoch ++ ns.map Scalar.ofNat) ∧
      Scalar.ofNat post = rootOf D.hash (w.nullifiers D.hash w.epoch ++ ns.map Scalar.ofNat) := by
  obtain ⟨pub, wit, hinputs, hmain, hwritten⟩ := h
  simp only [ShieldedPoolExt.insertionInputs, InsertionPublic.toFields, List.map_cons, List.cons_append,
    List.nil_append, List.cons.injEq] at hinputs
  obtain ⟨hpre, hpost, hcount, hns⟩ := hinputs
  rw [inv.count] at hwritten
  have hpreCount : pub.preLeafCount.toNat = (w.nullifiers D.hash w.epoch).length + 1 := by
    rw [← inv.count]
    exact (Scalar.ofNat_inj w.pool.activeLeafCount.toNat_lt
      (pub.preLeafCount.toNat_lt.trans (by decide)) hcount).symm
  have hnew := runInsertions_new H (inv.distinct w.epoch) (hpre.symm.trans inv.active) hpreCount hwritten hmain
  rwa [← hns, ← hpost] at hnew

omit [OrderedWords F] in
theorem NullifierInv.spend (inv : NullifierInv D w) {ss : List (Spend F)} (hss : ∀ s ∈ ss, s.epoch = w.epoch)
    (spends : w'.spends = w.spends ++ ss) (storage : w'.pool.toEpochStorage = w.pool.toEpochStorage)
    (distinct : Distinct (w.nullifiers D.hash w.epoch ++ ss.map (Spend.nullifier D.hash)))
    (active : Scalar.ofNat w'.pool.activeNullifierRoot =
      rootOf D.hash (w.nullifiers D.hash w.epoch ++ ss.map (Spend.nullifier D.hash)))
    (count : w'.pool.activeLeafCount.toNat = w.pool.activeLeafCount.toNat + ss.length) : NullifierInv D w' := by
  have hepoch : w'.epoch = w.epoch := congrArg (fun s => s.currentEpoch.toNat) storage
  have hnow : w'.nullifiers D.hash w.epoch = w.nullifiers D.hash w.epoch ++ ss.map (Spend.nullifier D.hash) := by
    rw [World.nullifiers_append hss spends, if_pos rfl]
  have hother : ∀ e, e ≠ w.epoch → w'.nullifiers D.hash e = w.nullifiers D.hash e := fun e he => by
    rw [World.nullifiers_append hss spends, if_neg he, List.append_nil]
  refine ⟨fun e => ?_, ?_, ?_, fun e he => ?_, fun s hs => ?_⟩
  · by_cases he : e = w.epoch
    · rw [he, hnow]
      exact distinct
    · rw [hother e he]
      exact inv.distinct e
  · rw [hepoch, hnow]
    exact active
  · rw [hepoch, hnow, count, inv.count, List.length_append, List.length_map]
    omega
  · rw [hepoch] at he
    rw [hother e he.ne, ← inv.frozen e he, storage]
  · rw [spends, List.mem_append] at hs
    rw [hepoch]
    exact hs.elim (inv.epoch s) fun hs => (hss s hs).le

omit [OrderedWords F] in
theorem NullifierInv.nullifiers_of_lt (inv : NullifierInv D w) {e : Nat} (he : w.epoch < e) :
    w.nullifiers D.hash e = [] := by
  rw [World.nullifiers, List.filter_eq_nil_iff.mpr fun s hs hse => ?_, List.map_nil]
  exact absurd (of_decide_eq_true hse ▸ inv.epoch s hs) (Nat.not_le.mpr he)

omit [OrderedWords F] in
/-- An epoch that begins has no nullifiers yet. -/
theorem NullifierInv.rolled (inv : NullifierInv D w) (hempty : Scalar.ofNat D.emptyImtRoot = rootOf D.hash [])
    (hlt : w.epoch + 1 < 2 ^ 64) (pool : w'.pool = w.pool.rolled D) (spends : w'.spends = w.spends) :
    NullifierInv D w' := by
  have hepoch : w'.epoch = w.epoch + 1 := by
    rw [World.epoch, pool]
    exact (UInt64.toNat_add _ _).trans (Nat.mod_eq_of_lt hlt)
  have hsame : ∀ e, w'.nullifiers D.hash e = w.nullifiers D.hash e := fun e => by
    rw [World.nullifiers, World.nullifiers, spends]
  have hnone := inv.nullifiers_of_lt (Nat.lt_succ_self w.epoch)
  refine ⟨fun e => hsame e ▸ inv.distinct e, ?_, ?_, fun e he => ?_, fun s hs => ?_⟩
  · rw [hepoch, hsame, hnone, pool]
    exact hempty
  · rw [hepoch, hsame, hnone, pool]
    rfl
  · rw [hsame, pool]
    show Scalar.ofNat (Function.update w.pool.frozenNullifierRoots w.epoch w.pool.activeNullifierRoot e) = _
    rcases Nat.lt_succ_iff_lt_or_eq.mp (hepoch ▸ he) with he | rfl
    · rw [Function.update_of_ne he.ne, inv.frozen e he]
    · rw [Function.update_self, inv.active]
  · rw [hepoch]
    exact (inv.epoch s (spends ▸ hs)).trans (Nat.le_succ _)

omit [OrderedWords F] in
/-- New notes take a leaf each, and the root over them is recorded. -/
theorem NoteInv.mint (inv : NoteInv D w) (H : Ideal D.hash) (hL : D.imt.Lawful (merkleHash D.hash))
    {notes : List (Note F)} {tree : T} (hne : notes ≠ [])
    (htree : (notes.map (Note.commitment D.hash)).foldlM (fun t x => D.imt.insert x t) w.pool.tree = .ok tree)
    {pool : ShieldedPoolExt T} (tokens : Address → τ) {spends : List (Spend F)} (logs : List PoolEvent)
    (tree' : pool.tree = tree)
    (roots : pool.roots = w.pool.roots.record maxHistoricalRoots (Scalar.toNat (D.imt.root tree)))
    (owned : ∀ s ∈ spends, s.note.amount ≠ 0 → s.Owned D.hash) :
    NoteInv D ⟨⟨pool, tokens⟩, w.minted ++ notes, spends, logs⟩ := by
  have hleaves := hL.insertAll htree
  have hnodup := hL.insertAll_nodup htree (by
    rw [inv.leaves]
    exact inv.nodup.map fun _ _ => Note.commitment_inj H)
  have hcommitments : D.imt.leaves tree = (w.minted ++ notes).map (Note.commitment D.hash) := by
    rw [hleaves, inv.leaves, List.map_append]
    rfl
  rw [hcommitments] at hnodup
  refine ⟨(congrArg D.imt.leaves tree').trans hcommitments, hnodup.of_map, fun r hr => ?_, owned⟩
  show Merkle.Spans (merkleHash D.hash) ((w.minted ++ notes).map (Note.commitment D.hash)) (Scalar.ofNat r)
  rcases RootRing.valid_of_record (roots ▸ hr) with rfl | hold
  · rw [BnField.ofNat_toNat, ← hcommitments]
    refine hL.root fun hnil => hne ?_
    rw [hcommitments, List.map_eq_nil_iff, List.append_eq_nil_iff] at hnil
    exact hnil.2
  · rw [List.map_append]
    exact (inv.roots r hold).mono (List.subset_append_left _ _)

end

end Pocs.Epochs
