import Pocs.Validium.Guests

/-! # Journals

The bytes that a guest program commits, the bytes that `ValidiumBridge.sol` and `DisclosureVerifier.sol` hash
for the same values, and the parsers of `host/src/journal.rs`. -/

namespace Pocs.Validium

abbrev Bytes32 := Bytes 32

section
variable {W : Type}

/-- `deposit`: `abi.encodePacked(allowlistRoot, pubkey)`. -/
def depositJournal (allowlistRoot pubkey : W) : List (Packed W) := [.word allowlistRoot, .word pubkey]

/-- `withdraw` and `requestForcedWithdrawal`: `abi.encodePacked(oldRoot, newRoot, amount, recipient)`. -/
def withdrawalJournal (oldRoot newRoot : W) (amount : UInt64) (recipient : Address) : List (Packed W) :=
  [.word oldRoot, .word newRoot, .bytes (toBeBytes amount), .bytes (addressBytes recipient)]

/-- `postTransferBatch`: `abi.encodePacked(oldRoot, newRoot)`. -/
def transferJournal (oldRoot newRoot : W) : List (Packed W) := [.word oldRoot, .word newRoot]

/-- `verifyDisclosure`: `abi.encodePacked(root, threshold, disclosureKeyHash)`. -/
def disclosureJournal (root : W) (threshold : UInt64) (disclosureKeyHash : W) : List (Packed W) :=
  [.word root, .bytes (toBeBytes threshold), .word disclosureKeyHash]

end

def Packed.encode : Packed Bytes32 → List UInt8
  | .word w => w.1
  | .bytes bs => bs

def encodePacked (items : List (Packed Bytes32)) : List UInt8 := items.flatMap Packed.encode

/-- `commit_slice` appends the bytes. `commit` serialises each `u8` as a 32-bit word. -/
def Commit.encode : Commit Bytes32 → List UInt8
  | .slice item => item.encode
  | .value w => w.1.flatMap fun b => [b, 0, 0, 0]

def journalBytes (journal : List (Commit Bytes32)) : List UInt8 := journal.flatMap Commit.encode

/-! ## On the host -/

/-- `try_into` from a slice to an array. -/
def tryInto (n : Nat) (bs : List UInt8) : Except String (Bytes n) :=
  if h : bs.length = n then .ok ⟨bs, h⟩ else .error "could not convert slice to array"

/-- `bytes[from..to]`. -/
def slice (bs : List UInt8) (start stop : Nat) : List UInt8 := (bs.drop start).take (stop - start)

def fromBeBytes (bs : Bytes 8) : UInt64 := UInt64.ofNat bs.toNat

def addressOfBytes (bs : Bytes 20) : Address := BitVec.ofNat 160 bs.toNat

structure TransferJournal where
  oldRoot : Bytes32
  newRoot : Bytes32

structure WithdrawalJournal where
  oldRoot : Bytes32
  newRoot : Bytes32
  amount : UInt64
  recipient : Address

structure DisclosureJournal where
  merkleRoot : Bytes32
  threshold : UInt64
  disclosureKeyHash : Bytes32

def TransferJournal.fromBytes (bytes : List UInt8) : Except String TransferJournal := do
  require (bytes.length = 64) ("Transfer journal should be 64 bytes, got " ++ toString bytes.length)
  let oldRoot ← tryInto 32 (slice bytes 0 32)
  let newRoot ← tryInto 32 (slice bytes 32 64)
  pure ⟨oldRoot, newRoot⟩

def WithdrawalJournal.fromBytes (bytes : List UInt8) : Except String WithdrawalJournal := do
  require (bytes.length = 92) ("Withdrawal journal should be 92 bytes, got " ++ toString bytes.length)
  let oldRoot ← tryInto 32 (slice bytes 0 32)
  let newRoot ← tryInto 32 (slice bytes 32 64)
  let amount ← tryInto 8 (slice bytes 64 72)
  let recipient ← tryInto 20 (slice bytes 72 92)
  pure ⟨oldRoot, newRoot, fromBeBytes amount, addressOfBytes recipient⟩

def DisclosureJournal.fromBytes (bytes : List UInt8) : Except String DisclosureJournal := do
  require (bytes.length = 72) ("Disclosure journal should be 72 bytes, got " ++ toString bytes.length)
  let merkleRoot ← tryInto 32 (slice bytes 0 32)
  let threshold ← tryInto 8 (slice bytes 32 40)
  let disclosureKeyHash ← tryInto 32 (slice bytes 40 72)
  pure ⟨merkleRoot, fromBeBytes threshold, disclosureKeyHash⟩

/-! ## Runs of the guests -/

/-- One of the four programs, on what it reads. -/
inductive Guest where
  | membership (input : MembershipInput Bytes32)
  | transfer (input : TransferInput Bytes32)
  | withdrawal (input : WithdrawalInput Bytes32)
  | disclosure (input : DisclosureInput Bytes32)

inductive PublicValues where
  | membership (root pubkey : Bytes32)
  | transfer (oldRoot newRoot : Bytes32)
  | withdrawal (oldRoot newRoot : Bytes32) (amount : UInt64) (recipient : Address)
  | disclosure (root : Bytes32) (threshold : UInt64) (disclosureKeyHash : Bytes32)

namespace Guest
variable (S : Sha256 Bytes32)

def main : Guest → Except String (List (Commit Bytes32))
  | membership input => S.membershipMain input
  | transfer input => S.transferMain input
  | withdrawal input => S.withdrawalMain input
  | disclosure input => S.disclosureMain input

def publicValues : Guest → Except String PublicValues
  | membership input => pure (.membership input.expectedRoot input.pubkey)
  | transfer input => do
    let roots ← S.transferRoots input
    pure (.transfer roots.1 roots.2)
  | withdrawal input => do
    let roots ← S.withdrawalRoots input
    pure (.withdrawal roots.1 roots.2 input.amount input.recipient)
  | disclosure input => do
    let values ← S.disclosureValues input
    pure (.disclosure values.1 input.threshold values.2)

/-- The guest is that of a membership proof. -/
def IsMembership : Guest → Prop
  | membership _ => True
  | _ => False

end Guest

namespace PublicValues

def hashed : PublicValues → List (Packed Bytes32)
  | membership root pubkey => depositJournal root pubkey
  | transfer oldRoot newRoot => transferJournal oldRoot newRoot
  | withdrawal oldRoot newRoot amount recipient => withdrawalJournal oldRoot newRoot amount recipient
  | disclosure root threshold disclosureKeyHash => disclosureJournal root threshold disclosureKeyHash

/-- The host's parser reads these values. There is none for membership. -/
def ParsedFrom (bytes : List UInt8) : PublicValues → Prop
  | membership _ _ => True
  | transfer oldRoot newRoot => TransferJournal.fromBytes bytes = .ok ⟨oldRoot, newRoot⟩
  | withdrawal oldRoot newRoot amount recipient =>
    WithdrawalJournal.fromBytes bytes = .ok ⟨oldRoot, newRoot, amount, recipient⟩
  | disclosure root threshold disclosureKeyHash =>
    DisclosureJournal.fromBytes bytes = .ok ⟨root, threshold, disclosureKeyHash⟩

end PublicValues

/-! ## Round trips -/

theorem tryInto_eq_ok {n : Nat} {bs : List UInt8} {b : Bytes n} : tryInto n bs = .ok b ↔ bs = b.1 := by
  unfold tryInto
  constructor
  · intro h
    split at h
    · cases h
      rfl
    · cases h
  · rintro rfl
    rw [dif_pos b.2]
    rfl

/-- A field lies between what is before it and what follows. -/
theorem slice_append (before field after : List UInt8) {start stop : Nat} (hbefore : before.length = start)
    (hfield : field.length = stop - start) : slice (before ++ (field ++ after)) start stop = field := by
  rw [slice, List.drop_left' hbefore, List.take_left' hfield]

theorem fromBeBytes_toBeBytes (x : UInt64) : fromBeBytes (Bytes.ofNat 8 x.toNat) = x := by
  have hlt : x.toNat < 256 ^ 8 := x.toNat_lt
  rw [fromBeBytes, Bytes.toNat, Bytes.ofNat, beToNat_beOfNat, Nat.mod_eq_of_lt hlt, UInt64.ofNat_toNat]

theorem addressOfBytes_addressBytes (a : Address) : addressOfBytes (Bytes.ofNat 20 a.toNat) = a := by
  have hlt : a.toNat < 256 ^ 20 := a.isLt
  rw [addressOfBytes, Bytes.toNat, Bytes.ofNat, beToNat_beOfNat, Nat.mod_eq_of_lt hlt, BitVec.ofNat_toNat,
    BitVec.setWidth_eq]

theorem transfer_parsed (oldRoot newRoot : Bytes32) :
    TransferJournal.fromBytes (encodePacked (transferJournal oldRoot newRoot)) = .ok ⟨oldRoot, newRoot⟩ := by
  have hold := oldRoot.2
  have hnew := newRoot.2
  have hbytes : encodePacked (transferJournal oldRoot newRoot) = oldRoot.1 ++ (newRoot.1 ++ []) := rfl
  simp only [TransferJournal.fromBytes, bind_eq_ok, require_eq_ok, tryInto_eq_ok, pure_eq_ok, exists_const]
  rw [hbytes]
  refine ⟨?_, oldRoot, slice_append [] _ _ rfl hold, newRoot, slice_append oldRoot.1 _ _ hold hnew, rfl⟩
  simp [hold, hnew]

theorem withdrawal_parsed (oldRoot newRoot : Bytes32) (amount : UInt64) (recipient : Address) :
    WithdrawalJournal.fromBytes (encodePacked (withdrawalJournal oldRoot newRoot amount recipient)) =
      .ok ⟨oldRoot, newRoot, amount, recipient⟩ := by
  have hold := oldRoot.2
  have hnew := newRoot.2
  have hamount : (toBeBytes amount).length = 8 := length_beOfNat _ _
  have hrecipient : (addressBytes recipient).length = 20 := length_beOfNat _ _
  have hbytes : encodePacked (withdrawalJournal oldRoot newRoot amount recipient) =
    oldRoot.1 ++ (newRoot.1 ++ (toBeBytes amount ++ (addressBytes recipient ++ []))) := rfl
  simp only [WithdrawalJournal.fromBytes, bind_eq_ok, require_eq_ok, tryInto_eq_ok, pure_eq_ok, exists_const]
  rw [hbytes]
  refine ⟨?_, oldRoot, slice_append [] _ _ rfl hold, newRoot, slice_append oldRoot.1 _ _ hold hnew,
    Bytes.ofNat 8 amount.toNat, ?_, Bytes.ofNat 20 recipient.toNat, ?_, ?_⟩
  · simp [hold, hnew, hamount, hrecipient]
  · rw [← List.append_assoc]
    exact slice_append (oldRoot.1 ++ newRoot.1) _ _ (by simp [hold, hnew]) hamount
  · rw [← List.append_assoc, ← List.append_assoc]
    exact slice_append (oldRoot.1 ++ newRoot.1 ++ toBeBytes amount) _ _ (by simp [hold, hnew, hamount])
      hrecipient
  · rw [fromBeBytes_toBeBytes, addressOfBytes_addressBytes]

theorem disclosure_parsed (root : Bytes32) (threshold : UInt64) (keyHash : Bytes32) :
    DisclosureJournal.fromBytes (encodePacked (disclosureJournal root threshold keyHash)) =
      .ok ⟨root, threshold, keyHash⟩ := by
  have hroot := root.2
  have hkey := keyHash.2
  have hthreshold : (toBeBytes threshold).length = 8 := length_beOfNat _ _
  have hbytes : encodePacked (disclosureJournal root threshold keyHash) =
    root.1 ++ (toBeBytes threshold ++ (keyHash.1 ++ [])) := rfl
  simp only [DisclosureJournal.fromBytes, bind_eq_ok, require_eq_ok, tryInto_eq_ok, pure_eq_ok, exists_const]
  rw [hbytes]
  refine ⟨?_, root, slice_append [] _ _ rfl hroot, Bytes.ofNat 8 threshold.toNat,
    slice_append root.1 _ _ hroot hthreshold, keyHash, ?_, ?_⟩
  · simp [hroot, hkey, hthreshold]
  · rw [← List.append_assoc]
    exact slice_append (root.1 ++ toBeBytes threshold) _ _ (by simp [hroot, hthreshold]) hkey
  · rw [fromBeBytes_toBeBytes]

/-- What the contract hashes can be parsed back. -/
theorem PublicValues.parsedFrom_hashed (values : PublicValues) :
    values.ParsedFrom (encodePacked values.hashed) := by
  cases values with
  | membership root pubkey => trivial
  | transfer oldRoot newRoot => exact transfer_parsed oldRoot newRoot
  | withdrawal oldRoot newRoot amount recipient => exact withdrawal_parsed oldRoot newRoot amount recipient
  | disclosure root threshold keyHash => exact disclosure_parsed root threshold keyHash

/-! ## Journals on chain -/

section
variable {S : Sha256 Bytes32}

/-- A program that commits slices commits what the contract hashes. -/
theorem journalBytes_slices (items : List (Packed Bytes32)) :
    journalBytes (items.map .slice) = encodePacked items := by
  rw [journalBytes, encodePacked, List.flatMap_map]
  rfl

theorem Guest.commits_slices {g : Guest} (hg : ¬ g.IsMembership) {journal : List (Commit Bytes32)}
    (h : g.main S = .ok journal) :
    ∃ values, g.publicValues S = .ok values ∧ journal = values.hashed.map .slice := by
  cases g with
  | membership input => exact absurd trivial hg
  | transfer input =>
    simp only [main, Sha256.transferMain, bind_eq_ok, pure_eq_ok] at h
    obtain ⟨roots, hroots, rfl⟩ := h
    refine ⟨.transfer roots.1 roots.2, ?_, rfl⟩
    rw [publicValues, hroots]
    rfl
  | withdrawal input =>
    simp only [main, Sha256.withdrawalMain, bind_eq_ok, pure_eq_ok] at h
    obtain ⟨roots, hroots, rfl⟩ := h
    refine ⟨.withdrawal roots.1 roots.2 input.amount input.recipient, ?_, rfl⟩
    rw [publicValues, hroots]
    rfl
  | disclosure input =>
    simp only [main, Sha256.disclosureMain, bind_eq_ok, pure_eq_ok] at h
    obtain ⟨values, hvalues, rfl⟩ := h
    refine ⟨.disclosure values.1 input.threshold values.2, ?_, rfl⟩
    rw [publicValues, hvalues]
    rfl

/-- A committed word takes four times its bytes. -/
theorem length_encode_value (w : Bytes32) : (Commit.value w).encode.length = 128 := by
  rw [Commit.encode, length_flatMap_chunk (n := 4) (fun _ => rfl), w.2]

theorem membership_journal_ne {input : MembershipInput Bytes32} {journal : List (Commit Bytes32)}
    (h : S.membershipMain input = .ok journal) :
    journalBytes journal ≠ encodePacked (depositJournal input.expectedRoot input.pubkey) := by
  simp only [Sha256.membershipMain, bind_eq_ok, require_eq_ok, exists_const, pure_eq_ok] at h
  obtain ⟨-, -, rfl⟩ := h
  intro heq
  have hlen := congrArg List.length heq
  have hroot : input.expectedRoot.1.length = 32 := input.expectedRoot.2
  have hpubkey : input.pubkey.1.length = 32 := input.pubkey.2
  simp [journalBytes, length_encode_value, encodePacked, depositJournal, Packed.encode, hroot, hpubkey] at hlen

/-- The journal of a run is what the contract hashes for its public values, and the host's parser returns
these, for every program but `membership.rs`. -/
theorem journal_matches_iff (S : Sha256 Bytes32) (g : Guest) {journal : List (Commit Bytes32)}
    (h : g.main S = .ok journal) :
    (∃ values, g.publicValues S = .ok values ∧ journalBytes journal = encodePacked values.hashed ∧
        values.ParsedFrom (journalBytes journal)) ↔ ¬ g.IsMembership := by
  constructor
  · rintro ⟨values, hvalues, hbytes, -⟩ hg
    cases g with
    | membership input =>
      cases hvalues
      exact membership_journal_ne h hbytes
    | transfer input => exact hg
    | withdrawal input => exact hg
    | disclosure input => exact hg
  · intro hg
    obtain ⟨values, hvalues, rfl⟩ := Guest.commits_slices hg h
    have hbytes := journalBytes_slices values.hashed
    refine ⟨values, hvalues, hbytes, ?_⟩
    rw [hbytes]
    exact values.parsedFrom_hashed

namespace Journal.Sample

def pubkey : Bytes32 :=
  Bytes.ofNat 32 0x66687aadf862bd776c8fc18b8e9f8e20089714856ee233b3902a591d0d5f2925
def leaf : Bytes32 :=
  Bytes.ofNat 32 0x8de5ee4b64131dac51db6e6d94268e44ae00003643c8db525a440425ba2a8428

def keyHash : Bytes32 :=
  Bytes.ofNat 32 0x304d280d0a83b0e4cbac3c6f81b303378258970f65b0c98122cbb1f49cd2e286

/-- SHA-256 on what is hashed to disclose this balance. -/
def sha256 : Sha256 Bytes32 where
  digest items :=
    if items = [.word (Bytes.zero 32)] then pubkey
    else if items = [.word pubkey, .bytes [5, 0, 0, 0, 0, 0, 0, 0], .word (Bytes.zero 32)] then leaf
    else if items = [.word pubkey, .word (Bytes.zero 32), .bytes Sha256.disclosureTag] then keyHash
    else Bytes.zero 32
  zero := Bytes.zero 32

def input : DisclosureInput Bytes32 := ⟨Bytes.zero 32, 5, Bytes.zero 32, [], [], 3, Bytes.zero 32⟩

theorem run : (Guest.disclosure input).main sha256 = .ok ((disclosureJournal leaf 3 keyHash).map .slice) := by
  decide +kernel

/-- A membership proof for the tree that consists of one key. -/
def membership : MembershipInput Bytes32 := ⟨pubkey, [], [], pubkey, pubkey⟩

end Journal.Sample

open Journal.Sample

theorem journal_matches_iff_sample : (∃ values, (Guest.disclosure input).publicValues sha256 = .ok values ∧
        journalBytes ((disclosureJournal leaf 3 keyHash).map .slice) = encodePacked values.hashed ∧
        values.ParsedFrom (journalBytes ((disclosureJournal leaf 3 keyHash).map .slice))) ↔
      ¬ (Guest.disclosure input).IsMembership :=
  journal_matches_iff sha256 (.disclosure input) run

/-- A finished run of `membership.rs` whose journal is not what `deposit` hashes. -/
theorem membership_journal_mismatch :
    ∃ (S : Sha256 Bytes32) (g : Guest) (journal : List (Commit Bytes32)), g.main S = .ok journal ∧
      ¬ ∃ values, g.publicValues S = .ok values ∧ journalBytes journal = encodePacked values.hashed ∧
        values.ParsedFrom (journalBytes journal) := by
  have hrun : sha256.membershipMain membership = .ok [.value pubkey, .value pubkey] := by decide +kernel
  refine ⟨sha256, .membership membership, _, hrun, ?_⟩
  rintro ⟨values, hvalues, hbytes, -⟩
  cases hvalues
  exact membership_journal_ne hrun hbytes

end

end Pocs.Validium
