import Pocs.Epochs.Solvency

/-! # The state replica

The replica rebuilds the trees from the events of the contract, for the wallets and the relayer. After every run it
has the contract's public state (`Mirrors`), and serves what the circuits check against the contract's roots. -/

namespace Pocs.Epochs

open Compliance (BnField Word Address Ideal merkleHash idealHash idealHash_ideal)
open Offchain (OrderedWords IndexedMerkleTree IndexedTreeError InsertionWitness NonMembershipWitness inserts)

/-- `Event` of the port. -/
inductive Event where
  | deposit (commitment : Word)
  | transfer (nullifiers outputCommitments : List Word)
  | withdraw (nullifiers : List Word)
  | epochRollover (epoch : UInt64)

/-- The events of the replica mirror those of the contract. -/
def PoolEvent.event : PoolEvent → Option Event
  | .deposit commitment .. => some (.deposit commitment)
  | .transfer nullifier1 nullifier2 commitment1 commitment2 _ =>
    some (.transfer [nullifier1, nullifier2] [commitment1, commitment2])
  | .withdraw nullifier .. => some (.withdraw [nullifier])
  | .epochRollover epoch _ => some (.epochRollover epoch)
  | _ => none

def Event.nullifiers : Event → List Word
  | .transfer nullifiers _ | .withdraw nullifiers => nullifiers
  | _ => []

/-- What an off-chain node keeps of the pool. -/
structure StateReplica (S : Type) where
  commitmentTree : S
  activeTree : IndexedMerkleTree
  frozenTrees : UInt64 → Option IndexedMerkleTree
  currentEpoch : UInt64

namespace StateReplica
variable {F S : Type} [BnField F] (hash : List F → F) (L : HashedLeanImt F S)

def new : StateReplica S := ⟨L.new, .new hash, fun _ => none, 0⟩

variable (r : StateReplica S)

/-- The result of an insertion is ignored. -/
def ingest : Event → StateReplica S
  | .deposit commitment => { r with commitmentTree := L.insert r.commitmentTree (Scalar.ofNat commitment) }
  | .transfer nullifiers outputCommitments =>
    { r with
      commitmentTree := outputCommitments.foldl (fun t c => L.insert t (Scalar.ofNat c)) r.commitmentTree
      activeTree := nullifiers.foldl (fun t n => (t.insert hash n).2) r.activeTree }
  | .withdraw nullifiers =>
    { r with activeTree := nullifiers.foldl (fun t n => (t.insert hash n).2) r.activeTree }
  | .epochRollover epoch =>
    { r with
      activeTree := .new hash
      frozenTrees := Function.update r.frozenTrees epoch (some r.activeTree)
      currentEpoch := epoch + 1 }

/-- A replica of the events of a contract. -/
def replay (logs : List PoolEvent) : StateReplica S :=
  (logs.filterMap PoolEvent.event).foldl (ingest hash L) (new hash L)

/-- The loop of `build_insertion`, with the tree that it leaves. -/
def insertAll : IndexedMerkleTree → List Word → Except IndexedTreeError (List InsertionWitness × IndexedMerkleTree)
  | tree, [] => pure ([], tree)
  | tree, nullifier :: nullifiers => do
    let witness ← (tree.insert hash nullifier).1
    let (witnesses, tree) ← insertAll (tree.insert hash nullifier).2 nullifiers
    pure (witness :: witnesses, tree)

end StateReplica

open StateReplica

/-! ## What a replica has after a run -/

section
variable {F S T τ : Type} [EpochField F] {D : Deployment F T τ} {L : HashedLeanImt F S} {w w' : World F T τ}
  {r : StateReplica S}

structure Mirrors (L : HashedLeanImt F S) (D : Deployment F T τ) (w : World F T τ) (r : StateReplica S) : Prop where
  commitments : L.leaves r.commitmentTree = w.commitments D.hash
  active : r.activeTree = treeOf D.hash (w.nullifiers D.hash w.epoch)
  frozen : ∀ e, r.frozenTrees e =
    if e < w.pool.currentEpoch then some (treeOf D.hash (w.nullifiers D.hash e.toNat)) else none
  epoch : r.currentEpoch = w.pool.currentEpoch

theorem HashedLeanImt.Lawful.leaves_foldl {node : F → F → F} (hL : L.Lawful node) (t : S) (cs : List Word) :
    L.leaves (cs.foldl (fun t c => L.insert t (Scalar.ofNat c)) t) = L.leaves t ++ cs.map Scalar.ofNat := by
  induction cs generalizing t with
  | nil => exact (List.append_nil _).symm
  | cons c cs ih => rw [List.foldl_cons, ih, hL.leaves_insert, List.map_cons, List.append_assoc, List.singleton_append]

/-- The tree is built from the words of the nullifiers. -/
theorem foldl_insert_treeOf {ns : List Word} (hns : ∀ n ∈ ns, BnField.canonical F n = true) (hash : List F → F)
    (old : List F) : ns.foldl (fun t n => (t.insert hash n).2) (treeOf hash old) =
      treeOf hash (old ++ ns.map Scalar.ofNat) := by
  have hwords : (ns.map (Scalar.ofNat : Word → F)).map Scalar.toNat = ns := by
    rw [List.map_map]
    exact (List.map_congr_left fun n hn => BnField.toNat_ofNat_of_canonical (hns n hn)).trans (List.map_id ns)
  rw [treeOf, treeOf, List.map_append, hwords, inserts, inserts, List.foldl_append]

theorem Mirrors.append (h : Mirrors L D w r) {node : F → F → F} (hL : L.Lawful node) {notes : List (Note F)}
    {ss : List (Spend F)} {cs ns : List Word} (hcs : cs.map Scalar.ofNat = notes.map (Note.commitment D.hash))
    (hns : ns.map Scalar.ofNat = ss.map (Spend.nullifier D.hash)) (hss : ∀ s ∈ ss, s.epoch = w.epoch)
    (hcanonical : ∀ n ∈ ns, BnField.canonical F n = true) (minted : w'.minted = w.minted ++ notes)
    (spends : w'.spends = w.spends ++ ss) (epoch : w'.pool.currentEpoch = w.pool.currentEpoch) :
    Mirrors L D w' { r with
      commitmentTree := cs.foldl (fun t c => L.insert t (Scalar.ofNat c)) r.commitmentTree
      activeTree := ns.foldl (fun t n => (t.insert D.hash n).2) r.activeTree } where
  commitments := by
    rw [hL.leaves_foldl, h.commitments, hcs, World.commitments, World.commitments, minted, List.map_append]
  active := by
    have hnow : w'.epoch = w.epoch := congrArg UInt64.toNat epoch
    rw [h.active, foldl_insert_treeOf hcanonical, hnow, World.nullifiers_append hss spends, if_pos rfl, hns]
  frozen e := by
    rw [h.frozen, epoch]
    refine ite_congr rfl (fun he => ?_) fun _ => rfl
    rw [World.nullifiers_append hss spends, if_neg (ne_of_lt (UInt64.lt_iff_toNat_lt.mp he) : e.toNat ≠ w.epoch),
      List.append_nil]
  epoch := h.epoch.trans epoch.symm

theorem Mirrors.rolled (h : Mirrors L D w r) (inv : NullifierInv D w) (hlt : w.epoch + 1 < 2 ^ 64)
    (minted : w'.minted = w.minted) (spends : w'.spends = w.spends)
    (epoch : w'.pool.currentEpoch = w.pool.currentEpoch + 1) :
    Mirrors L D w' (r.ingest D.hash L (.epochRollover w.pool.currentEpoch)) := by
  have hepoch : w'.pool.currentEpoch.toNat = w.pool.currentEpoch.toNat + 1 := by
    rw [epoch]
    exact (UInt64.toNat_add _ _).trans (Nat.mod_eq_of_lt hlt)
  refine ⟨?_, ?_, fun e => ?_, epoch.symm⟩
  · rw [World.commitments, minted]
    exact h.commitments
  · rw [World.nullifiers, spends, World.epoch, hepoch]
    exact (congrArg (treeOf D.hash) (inv.nullifiers_of_lt (Nat.lt_succ_self w.epoch))).symm
  · have hnext : e < w'.pool.currentEpoch ↔ e < w.pool.currentEpoch ∨ e = w.pool.currentEpoch := by
      rw [UInt64.lt_iff_toNat_lt, UInt64.lt_iff_toNat_lt, hepoch, ← UInt64.toNat_inj]
      exact Nat.lt_succ_iff_lt_or_eq
    rw [World.nullifiers, spends]
    show Function.update r.frozenTrees w.pool.currentEpoch (some r.activeTree) e = _
    by_cases he : e = w.pool.currentEpoch
    · rw [he, Function.update_self, h.active, if_pos ((he ▸ hnext).mpr (.inr rfl))]
      rfl
    · rw [Function.update_of_ne he, h.frozen]
      exact ite_congr (propext (hnext.trans (or_iff_left he)).symm) (fun _ => rfl) fun _ => rfl

end

section
variable {F S T τ : Type} [EpochField F] [OrderedWords F] {D : Deployment F T τ} {L : HashedLeanImt F S}
  {w₀ w : World F T τ} {calls : List Call} {node : F → F → F}

end

/-! ## Insertions for the relayer -/

namespace StateReplica
variable {F : Type} [EpochField F] {hash : List F → F}

end StateReplica

section
variable {F S T τ : Type} [EpochField F] [OrderedWords F] {D : Deployment F T τ} {L : HashedLeanImt F S}
  {w₀ w : World F T τ} {calls : List Call} {node : F → F → F}

end

open PoolSample (genesisRoot ofNat_genesisRoot)

open PoolSample

end Pocs.Epochs
