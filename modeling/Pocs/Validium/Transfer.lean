import Pocs.Validium.Guests

/-! # Transfers conserve value

For every vector that a prover may supply, `transfer.rs` moves the amount between two leaves of the tree
exactly when the vector of the sender's indices is no longer than the sender's path. -/

namespace Pocs.Validium

open Merkle (combine foldPath length_pathAt ofBits ofBits_bit ofBits_div pathAt pathAt_add)
open AccountTree (balance_of_leaves leaf_set leaves_set root_set total_set)

/-- One balance moved to another. -/
structure Transferred {W : Type} (sender recipient : W) (amount : UInt64) (t t' : AccountTree W) : Prop where
  depth_eq : t'.depth = t.depth
  total_eq : t'.total = t.total
  accounts : ∃ i < 2 ^ t.depth, ∃ j < 2 ^ t.depth, i ≠ j ∧ (∀ k, k ≠ i → k ≠ j → t'.leaves k = t.leaves k) ∧
    ∃ a b a' b', t.leaves i = some a ∧ t.leaves j = some b ∧ t'.leaves i = some a' ∧ t'.leaves j = some b' ∧
      a.pubkey = sender ∧ a'.pubkey = sender ∧ b.pubkey = recipient ∧ b'.pubkey = recipient ∧
      a'.balance.toNat + amount.toNat = a.balance.toNat ∧
      b'.balance.toNat = b.balance.toNat + amount.toNat

theorem nth_eq_ok {α : Type} {xs : List α} {i : Nat} {a : α} : nth xs i = .ok a ↔ xs[i]? = some a :=
  okOr_eq_ok

section
variable {W : Type} {S : Sha256 W}

/-- A loop that ends has stayed within the path and has folded the levels it is for. -/
theorem climb_range {indices : List Bool} {path : List W} {s n : Nat} {x y : W}
    (h : S.climb indices path (List.range' s n) x = .ok y) :
    y = foldPath S.hashPair x (((indices.zip path).drop s).take n) ∧ (0 < n → s + n ≤ path.length) := by
  induction n generalizing s x with
  | zero =>
    cases h
    exact ⟨rfl, fun hn => absurd hn (Nat.lt_irrefl 0)⟩
  | succ n ih =>
    rw [List.range'_succ, Sha256.climb, List.foldlM_cons] at h
    simp only [bind_eq_ok, nth_eq_ok, pure_eq_ok] at h
    obtain ⟨_, ⟨b, hb, sibling, hsibling, rfl⟩, h⟩ := h
    obtain ⟨hy, hlen⟩ := ih h
    have hzip : (indices.zip path)[s]? = some (b, sibling) := by
      rw [List.getElem?_zip_eq_some]
      exact ⟨hb, hsibling⟩
    obtain ⟨hlt, hget⟩ := List.getElem?_eq_some_iff.mp hzip
    refine ⟨?_, fun _ => ?_⟩
    · rw [hy, List.drop_eq_getElem_cons hlt, hget, List.take_succ_cons]
      rfl
    · obtain ⟨hpath, -⟩ := List.getElem?_eq_some_iff.mp hsibling
      rcases Nat.eq_zero_or_pos n with rfl | hn
      · exact hpath
      · have := hlen hn
        omega

/-- The level found is the highest on which the vectors differ. -/
theorem divergence_spec {si ri : List Bool} {n k : Nat} (h : Sha256.divergence si ri n = .ok k) :
    k < n ∧ n ≤ ri.length ∧ (∃ b, si[k]? = some b ∧ ri[k]? = some (!b)) ∧
      ∀ j, k < j → j < n → si[j]? = ri[j]? := by
  induction n with
  | zero => cases h
  | succ n ih =>
    simp only [Sha256.divergence, bind_eq_ok, nth_eq_ok] at h
    obtain ⟨s, hs, r, hr, h⟩ := h
    obtain ⟨hlen, -⟩ := List.getElem?_eq_some_iff.mp hr
    split at h
    · rename_i hne
      have hsr : s ≠ r := bne_iff_ne.mp hne
      obtain rfl := pure_eq_ok.mp h
      refine ⟨Nat.lt_succ_self n, hlen, ⟨s, hs, ?_⟩, fun j hj hj' => absurd hj (by omega)⟩
      rw [hr, Bool.eq_not.mpr hsr.symm]
    · rename_i heq
      obtain ⟨hk, -, hbits, habove⟩ := ih h
      refine ⟨by omega, hlen, hbits, fun j hj hj' => ?_⟩
      rcases Nat.lt_succ_iff_lt_or_eq.mp hj' with hlt | rfl
      · exact habove j hj hlt
      · have hsr : s = r := by simpa using heq
        rw [hs, hr, hsr]

theorem computeNewRoot_eq_ok {senderLeaf recipientLeaf root : W} {si ri : List Bool} {sp rp : List W}
    (h : S.computeNewRoot senderLeaf si recipientLeaf ri sp rp = .ok root) :
    ∃ k b, Sha256.divergence si ri si.length = .ok k ∧ si[k]? = some b ∧
      (0 < k → k ≤ sp.length) ∧ (k + 1 < si.length → si.length ≤ sp.length) ∧ root = foldPath S.hashPair
        (combine S.hashPair b (foldPath S.hashPair recipientLeaf ((ri.zip rp).take k))
          (foldPath S.hashPair senderLeaf ((si.zip sp).take k)))
        (((si.zip sp).drop (k + 1)).take (si.length - (k + 1))) := by
  simp only [Sha256.computeNewRoot, bind_eq_ok, nth_eq_ok] at h
  obtain ⟨k, hk, sh, hsh, rh, hrh, b, hb, h⟩ := h
  obtain ⟨rfl, hksp⟩ := climb_range hsh
  obtain ⟨rfl, -⟩ := climb_range hrh
  obtain ⟨rfl, hupper⟩ := climb_range h
  rw [Nat.zero_add] at hksp
  refine ⟨k, b, hk, hb, hksp, fun hlt => ?_, ?_⟩
  · have := hupper (by omega)
    omega
  · rw [List.drop_zero, List.drop_zero, combine]

/-- Vectors that differ at `k` and agree above are of leaves whose paths meet there. -/
theorem ofBits_meet {bits bits' : List Bool} {k : Nat} {b : Bool} (hb : bits[k]? = some b)
    (hb' : bits'[k]? = some (!b)) (habove : ∀ j, k < j → bits[j]? = bits'[j]?) :
    ofBits bits / 2 ^ k ≠ ofBits bits' / 2 ^ k ∧ ofBits bits / 2 ^ (k + 1) = ofBits bits' / 2 ^ (k + 1) := by
  constructor
  · intro heq
    have hbit := ofBits_bit hb
    rw [heq, ofBits_bit hb'] at hbit
    cases b
    · cases hbit
    · cases hbit
  · have hdrop : bits.drop (k + 1) = bits'.drop (k + 1) := by
      apply List.ext_getElem?
      intro j
      rw [List.getElem?_drop, List.getElem?_drop]
      exact habove _ (by omega)
    rw [ofBits_div, ofBits_div, hdrop]

/-- The root of the tree with two other accounts. -/
theorem root_set_set {t : AccountTree W} {d k s r : Nat} (hd : t.depth = d) (hk : k < d) (hs : s < 2 ^ d)
    (hlow : s / 2 ^ k ≠ r / 2 ^ k) (hhigh : s / 2 ^ (k + 1) = r / 2 ^ (k + 1)) (a b : Account W) :
    foldPath S.hashPair (combine S.hashPair (decide (s / 2 ^ k % 2 = 1))
          (foldPath S.hashPair (b.commitment S) (pathAt S.hashPair (t.leaf S) 0 k r))
          (foldPath S.hashPair (a.commitment S) (pathAt S.hashPair (t.leaf S) 0 k s)))
        (pathAt S.hashPair (t.leaf S) (k + 1) (d - (k + 1)) (s / 2 ^ (k + 1))) =
      ((t.set s a).set r b).root S := by
  subst hd
  rw [Merkle.foldPath_two_leaves hk hlow hhigh, Nat.div_eq_of_lt hs, AccountTree.root, leaf_set, leaf_set]
  rfl

/-- Moving an amount between the accounts of two leaves. -/
theorem transferred_set {t : AccountTree W} {s r : Nat} (hs : s < 2 ^ t.depth) (hr : r < 2 ^ t.depth)
    (hne : s ≠ r) {a b : Account W} {amount : UInt64} (ha : t.leaves s = some a)
    (hb : t.leaves r = some b) (hle : amount ≤ a.balance)
    (hfit : b.balance.toNat + amount.toNat < 2 ^ 64) (salt salt' : W) : Transferred a.pubkey b.pubkey amount t
      ((t.set s ⟨a.pubkey, a.balance - amount, salt⟩).set r ⟨b.pubkey, b.balance + amount, salt'⟩) := by
  have hsub : (a.balance - amount).toNat = a.balance.toNat - amount.toNat := UInt64.toNat_sub_of_le _ _ hle
  have hadd : (b.balance + amount).toNat = b.balance.toNat + amount.toNat := by
    rw [UInt64.toNat_add, Nat.mod_eq_of_lt hfit]
  have hle' : amount.toNat ≤ a.balance.toNat := UInt64.le_iff_toNat_le.mp hle
  constructor
  · rfl
  · have hfirst := total_set hs ⟨a.pubkey, a.balance - amount, salt⟩
    have hsecond := @total_set _ (t.set s ⟨a.pubkey, a.balance - amount, salt⟩) r hr
      ⟨b.pubkey, b.balance + amount, salt'⟩
    rw [AccountTree.balance_set, Function.update_of_ne hne.symm, balance_of_leaves hb] at hsecond
    rw [balance_of_leaves ha] at hfirst
    simp only [hsub, hadd] at hfirst hsecond
    omega
  · refine ⟨s, hs, r, hr, hne, ?_, a, b, ⟨a.pubkey, a.balance - amount, salt⟩,
      ⟨b.pubkey, b.balance + amount, salt'⟩, ha, hb, ?_, Function.update_self .., rfl, rfl, rfl, rfl, ?_, hadd⟩
    · intro k hks hkr
      rw [leaves_set, leaves_set, Function.update_of_ne hkr, Function.update_of_ne hks]
    · rw [leaves_set, leaves_set, Function.update_of_ne hne, Function.update_self]
    · show (a.balance - amount).toNat + _ = _
      omega

/-! ## The program -/

/-- What a finished transfer has checked, and the new root that it has computed. -/
theorem transferMain_eq_ok [DecidableEq W] {input : TransferInput W} {oldRoot newRoot : W}
    (h : S.transferMain input = .ok [.slice (.word oldRoot), .slice (.word newRoot)]) :
    0 < input.amount ∧ input.amount ≤ input.senderBalance ∧
      input.recipientBalance.toNat + input.amount.toNat < 2 ^ 64 ∧
      S.computeRoot (S.accountCommitment (S.sha256 input.senderSk) input.senderBalance input.senderSalt)
        input.senderPath input.senderIndices = oldRoot ∧
      S.computeRoot (S.accountCommitment input.recipientPubkey input.recipientBalance input.recipientSalt)
        input.recipientPath input.recipientIndices = oldRoot ∧ S.computeNewRoot
        (S.accountCommitment (S.sha256 input.senderSk) (input.senderBalance - input.amount)
          input.newSenderSalt) input.senderIndices
        (S.accountCommitment input.recipientPubkey (input.recipientBalance + input.amount)
          input.newRecipientSalt) input.recipientIndices
        input.senderPath input.recipientPath = .ok newRoot := by
  simp only [Sha256.transferMain, Sha256.transferRoots, Sha256.verifyMembership, bind_eq_ok, require_eq_ok,
    exists_const, pure_eq_ok] at h
  obtain ⟨_, ⟨-, hpos, hle, hfit, hmember, _, hnew, rfl⟩, h⟩ := h
  simp only [List.cons.injEq, Commit.slice.injEq, Packed.word.injEq, and_true] at h
  obtain ⟨rfl, rfl⟩ := h
  have := input.amount.toNat_lt
  exact ⟨hpos, hle, by omega, rfl, hmember, hnew⟩

theorem getElem?_bits (indices : List Bool) {path : List W} {j : Nat} (h : j < path.length) :
    ((indices.zip path).map (·.1))[j]? = indices[j]? := by
  induction path generalizing indices j with
  | nil => exact absurd h (Nat.not_lt_zero j)
  | cons sibling path ih =>
    cases indices with
    | nil => rfl
    | cons b indices =>
      cases j with
      | zero => rfl
      | succ j => exact ih indices (Nat.lt_of_succ_lt_succ h)

theorem take_pathAt {f : Nat → W} {d k i : Nat} (h : k ≤ d) :
    (pathAt S.hashPair f 0 d i).take k = pathAt S.hashPair f 0 k i := by
  obtain ⟨n, rfl⟩ := Nat.exists_eq_add_of_le h
  rw [pathAt_add, List.take_left' (length_pathAt 0 k i)]

theorem drop_pathAt {f : Nat → W} {d k i : Nat} (h : k ≤ d) :
    (pathAt S.hashPair f 0 d i).drop k = pathAt S.hashPair f k (d - k) (i / 2 ^ k) := by
  obtain ⟨n, rfl⟩ := Nat.exists_eq_add_of_le h
  rw [pathAt_add, List.drop_left' (length_pathAt 0 k i), Nat.zero_add, Nat.add_sub_cancel_left]

/-- The root of a tree is above no root of a tree of its depth. -/
theorem root_ne_hashPair (H : S.Ideal) {t t' : AccountTree W} (hdepth : t'.depth = t.depth) (w : W) :
    t'.root S ≠ S.hashPair (t.root S) w := by
  intro h
  rw [AccountTree.root, AccountTree.root, hdepth] at h
  cases hd : t.depth with
  | zero =>
    rw [hd] at h
    exact H.leaf_ne t' 0 _ _ h
  | succ d =>
    rw [hd] at h
    obtain ⟨hleft, -⟩ := H.pair_inj h
    exact absurd (Merkle.level_eq_of_nodeAt H.pair_inj (H.leaf_ne t') (H.leaf_ne t) hleft)
      (Nat.ne_of_lt (Nat.lt_succ_self d))

section
variable [DecidableEq W] (H : S.Ideal) {t : AccountTree W} {input : TransferInput W} {newRoot : W}
  (h : S.transferMain input = .ok [.slice (.word (t.root S)), .slice (.word newRoot)])
include H h

/-- With enough siblings for the sender's indices, the two accounts change in their places. -/
theorem exists_transferred (hlen : input.senderIndices.length ≤ input.senderPath.length) :
    ∃ t' : AccountTree W, t'.root S = newRoot ∧
      Transferred (S.sha256 input.senderSk) input.recipientPubkey input.amount t t' := by
  obtain ⟨-, hle, hfit, hsender, hrecipient, hnew⟩ := transferMain_eq_ok h
  obtain ⟨k, b, hk, hb, -, -, rfl⟩ := computeNewRoot_eq_ok hnew
  obtain ⟨hkd, hri, ⟨b', hsb, hrb⟩, habove⟩ := divergence_spec hk
  obtain rfl : b' = b := Option.some.inj (hsb.symm.trans hb)
  obtain ⟨hls, hs, has, hps⟩ := H.mem_of_computeRoot (a := ⟨_, _, _⟩) hsender
  obtain ⟨hlr, hr, har, hpr⟩ := H.mem_of_computeRoot (a := ⟨_, _, _⟩) hrecipient
  -- both vectors of siblings reach the depth of the tree
  have hd : input.senderIndices.length = t.depth := by
    rw [← hls, List.length_zip, Nat.min_eq_left hlen]
  have hrp : t.depth ≤ input.recipientPath.length := by
    rw [← hlr, List.length_zip]
    exact Nat.min_le_right _ _
  rw [hd] at hkd hlen
  have hks : k < input.senderPath.length := hkd.trans_le hlen
  have hkr : k < input.recipientPath.length := hkd.trans_le hrp
  have hmeet : position input.senderPath input.senderIndices / 2 ^ k ≠
        position input.recipientPath input.recipientIndices / 2 ^ k ∧
      position input.senderPath input.senderIndices / 2 ^ (k + 1) =
        position input.recipientPath input.recipientIndices / 2 ^ (k + 1) := by
    apply ofBits_meet ((getElem?_bits input.senderIndices hks).trans hsb)
      ((getElem?_bits input.recipientIndices hkr).trans hrb)
    intro j hj
    rcases Nat.lt_or_ge j t.depth with hlt | hge
    · rw [getElem?_bits _ (hlt.trans_le hlen), getElem?_bits _ (hlt.trans_le hrp), habove j hj (by omega)]
    · rw [List.getElem?_eq_none (by rwa [List.length_map, hls]),
        List.getElem?_eq_none (by rwa [List.length_map, hlr])]
  obtain ⟨hlow, hhigh⟩ := hmeet
  have hbit := ofBits_bit ((getElem?_bits input.senderIndices hks).trans hsb)
  have hdecide : decide (position input.senderPath input.senderIndices / 2 ^ k % 2 = 1) = b' := by
    rw [position, hbit]
    cases b' <;> rfl
  have hne : position input.senderPath input.senderIndices ≠
      position input.recipientPath input.recipientIndices := fun heq => hlow (congrArg (· / 2 ^ k) heq)
  refine ⟨_, ?_, transferred_set hs hr hne has har hle hfit input.newSenderSalt input.newRecipientSalt⟩
  rw [← root_set_set rfl hkd hs hlow hhigh, hd, hps, hpr, take_pathAt hkd.le, take_pathAt hkd.le,
    drop_pathAt hkd, hdecide, List.take_of_length_le (by rw [length_pathAt])]
  rfl

/-- With more indices than siblings, the sender's tree and the recipient's tree become siblings. -/
theorem newRoot_eq_hashPair (hlen : input.senderPath.length < input.senderIndices.length) :
    ∃ s r : AccountTree W, s.depth = t.depth ∧ r.depth = t.depth ∧
      (newRoot = S.hashPair (s.root S) (r.root S) ∨ newRoot = S.hashPair (r.root S) (s.root S)) := by
  obtain ⟨-, -, -, hsender, hrecipient, hnew⟩ := transferMain_eq_ok h
  obtain ⟨k, b, hk, hb, hloop, hupper, rfl⟩ := computeNewRoot_eq_ok hnew
  obtain ⟨hkd, hri, -, -⟩ := divergence_spec hk
  obtain ⟨hls, hs, -, hps⟩ := H.mem_of_computeRoot (a := ⟨_, _, _⟩) hsender
  obtain ⟨hlr, hr, -, hpr⟩ := H.mem_of_computeRoot (a := ⟨_, _, _⟩) hrecipient
  -- the loops stay within the path, so the level found is the one above it
  have hd : t.depth = input.senderPath.length := by
    rw [← hls, List.length_zip, Nat.min_eq_right hlen.le]
  have hkeq : k = t.depth := by
    rcases Nat.eq_zero_or_pos k with rfl | hpos
    · omega
    · have := hloop hpos
      omega
  subst hkeq
  have hnone : input.senderIndices.length - (t.depth + 1) = 0 := by omega
  rw [List.take_of_length_le hls.le, List.take_of_length_le hlr.le, hnone, hps, hpr]
  refine ⟨t.set (position input.senderPath input.senderIndices)
      ⟨S.sha256 input.senderSk, input.senderBalance - input.amount, input.newSenderSalt⟩,
    t.set (position input.recipientPath input.recipientIndices)
      ⟨input.recipientPubkey, input.recipientBalance + input.amount, input.newRecipientSalt⟩, rfl, rfl, ?_⟩
  rw [root_set hs, root_set hr]
  cases b with
  | false => exact .inl rfl
  | true => exact .inr rfl

theorem newRoot_ne_root (hlen : input.senderPath.length < input.senderIndices.length) {t' : AccountTree W}
    (hdepth : t'.depth = t.depth) : t'.root S ≠ newRoot := by
  obtain ⟨s, r, hs, hr, rfl | rfl⟩ := newRoot_eq_hashPair H h hlen
  · exact root_ne_hashPair H (hdepth.trans hs.symm) _
  · exact root_ne_hashPair H (hdepth.trans hr.symm) _

end

/-- A transfer from the root of a tree conserves value, whatever it has read, exactly when there are not more
of the sender's indices than of its siblings. -/
theorem transfer_conserves_iff [DecidableEq W] (H : S.Ideal) (t : AccountTree W) (input : TransferInput W)
    {newRoot : W} (h : S.transferMain input = .ok [.slice (.word (t.root S)), .slice (.word newRoot)]) :
    (∃ t' : AccountTree W, t'.root S = newRoot ∧
        Transferred (S.sha256 input.senderSk) input.recipientPubkey input.amount t t') ↔
      input.senderIndices.length ≤ input.senderPath.length := by
  constructor
  · rintro ⟨t', hroot, htransferred⟩
    by_contra hlen
    exact newRoot_ne_root H h (Nat.lt_of_not_le hlen) htransferred.depth_eq hroot
  · exact exists_transferred H h

namespace Transfer.Sample

def sender : Account Term := ⟨termSha256.sha256 (.atom 0), 5, .atom 1⟩
def recipient : Account Term := ⟨.atom 2, 7, .atom 3⟩

def tree : AccountTree Term where
  depth := 1
  leaves
    | 0 => some sender
    | 1 => some recipient
    | _ => none

def input (senderIndices recipientIndices : List Bool) : TransferInput Term where
  senderSk := .atom 0
  senderBalance := 5
  senderSalt := .atom 1
  senderPath := [recipient.commitment termSha256]
  senderIndices
  amount := 5
  recipientPubkey := .atom 2
  recipientBalance := 7
  recipientSalt := .atom 3
  recipientPath := [sender.commitment termSha256]
  recipientIndices
  newSenderSalt := .atom 4
  newRecipientSalt := .atom 5

def senderAfter : Term := termSha256.accountCommitment (termSha256.sha256 (.atom 0)) 0 (.atom 4)
def recipientAfter : Term := termSha256.accountCommitment (.atom 2) 12 (.atom 5)

def doubledRoot : Term :=
  termSha256.hashPair (termSha256.hashPair senderAfter (recipient.commitment termSha256))
    (termSha256.hashPair (sender.commitment termSha256) recipientAfter)

theorem honest_run : termSha256.transferMain (input [false] [true]) =
    .ok [.slice (.word (tree.root termSha256)),
      .slice (.word (termSha256.hashPair senderAfter recipientAfter))] := by
  decide

theorem longer_run : termSha256.transferMain (input [false, false] [true, true]) =
    .ok [.slice (.word (tree.root termSha256)), .slice (.word doubledRoot)] := by
  decide

end Transfer.Sample

open Transfer.Sample

theorem transfer_conserves_iff_sample :
    (∃ t' : AccountTree Term, t'.root termSha256 = termSha256.hashPair senderAfter recipientAfter ∧
        Transferred (termSha256.sha256 (.atom 0)) (.atom 2) 5 tree t') ↔ [false].length ≤ 1 :=
  transfer_conserves_iff termSha256_ideal tree (input [false] [true]) honest_run

/-- One index too many, in both vectors: what is posted as the new root is above two copies of the tree. -/
theorem longer_indices_double : ∃ (input : TransferInput Term) (newRoot : Term),
      termSha256.transferMain input = .ok [.slice (.word (tree.root termSha256)), .slice (.word newRoot)] ∧
        ¬ ∃ t' : AccountTree Term, t'.root termSha256 = newRoot ∧
          Transferred (termSha256.sha256 input.senderSk) input.recipientPubkey input.amount tree t' := by
  refine ⟨input [false, false] [true, true], doubledRoot, longer_run, ?_⟩
  rintro ⟨t', hroot, htransferred⟩
  exact newRoot_ne_root termSha256_ideal longer_run (by decide) htransferred.depth_eq hroot

end

end Pocs.Validium
