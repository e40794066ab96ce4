import Pocs.Compliance.Gated
import Pocs.Compliance.Honest

/-! # Attestation gating

The attester, its pair in the revocation tree and the paths are private, and the attestation root may
be old; the revocation root and the generation floor are current. An accepted gated operation still
shows that each key it screens was attested to, in time and by an attester the registry contains
(`gated_attested`). -/

namespace Pocs.Compliance

variable {F T τ : Type} [BnField F] {D : Deployment F T τ} {w w' : World F T τ} {tr : List Step}
  {sender : Address} {call : PoolCall} {g : GatedProof F} {key : F}

/-- A key that the registry has attested to: an accepted `addAttestations` issued a leaf for it, whose
generation is not retired and which outlives the epoch, and the attester that issued it is in the
revocation tree and not revoked. -/
structure AttestedBy (D : Deployment F T τ) (tr : List Step) (w : World F T τ) (key : F)
    (attester : Address) (generation issuedAt expiresAt : UInt64) : Prop where
  issued : ∃ subjects, ∃ subject ∈ subjects, Scalar.ofNat subject = key ∧
    .registry attester (.addAttestations subjects expiresAt generation) ∈ tr ∧
    AttestationRegistry.attestationLeaf D.toRegistryConfig attester subject generation issuedAt
      expiresAt ∈ D.imt.leaves w.registry.attestationTree
  generation : w.registry.minAcceptedGeneration D.toRegistryConfig w.timestamp ≤ generation
  expiry : (w.epoch D + 1) * D.epochSeconds ≤ expiresAt.toNat
  contained : w.registry.revocationTree.contains attester = true
  unrevoked : w.epoch D < (w.registry.revocationTree.revokedAtEpochOf attester).toNat

/-- A leaf that verifies against a known attestation root was issued. -/
theorem RegistryInv.exists_issued {registry : AttestationRegistry F T} (H : Ideal D.hash)
    (hL : D.imt.Lawful (merkleHash D.hash)) (inv : RegistryInv D tr registry) {r : Word}
    (hr : registry.isKnownAttestationRoot D.toRegistryConfig r = true)
    {maxDepth : Nat} {p : MerklePath F maxDepth} {a b c d e : F}
    (hverify : merkleVerify D.hash (D.hash [a, b, c, d, e]) (Scalar.ofNat r) p = .ok ()) :
    D.hash [a, b, c, d, e] ∈ D.imt.leaves registry.attestationTree := by
  have hnode : ∀ a b c d e l r : F, D.hash [a, b, c, d, e] ≠ merkleHash D.hash l r :=
    fun _ _ _ _ _ _ _ => H.ne_of_length (by simp) (by simp) (by simp) (by simp) (by simp)
  rcases inv.known hL hr with hzero | hspans
  · rw [hzero] at hverify
    exact absurd hverify (merkleVerify_zero H (by simp) (by simp))
  · refine mem_of_merkleVerify H (fun y hy l r => ?_) hverify hspans (hnode a b c d e)
    obtain ⟨_, _, _, _, _, _, _, -, rfl⟩ := inv.issued y hy
    exact hnode _ _ _ _ _ _ _

theorem PoolCall.mem_inputs {p : GatedParams} (hp : call.gated = some p) :
    p.epoch ∈ p.inputs ∧ p.epochSeconds ∈ p.inputs ∧ p.minAcceptedGeneration ∈ p.inputs := by
  cases call with
  | deposit p =>
    obtain rfl := Option.some.inj hp
    simp [DepositParams.gated, DepositParams.inputs]
  | transfer p =>
    obtain rfl := Option.some.inj hp
    simp [TransferParams.gated, TransferParams.inputs]
  | withdraw p =>
    obtain rfl := Option.some.inj hp
    simp [WithdrawParams.gated, WithdrawParams.inputs]
  | _ => cases hp

/-- The checks of the pool and of the circuit together, for one screened key. -/
theorem PoolStep.attested (H : Ideal D.hash) (hL : D.imt.Lawful (merkleHash D.hash))
    (inv : RegistryInv D tr w.registry) (h : PoolStep D sender w w' call) (hg : Proves D call g)
    (hkey : key ∈ g.screened D.hash) : ∃ attester generation issuedAt expiresAt,
      AttestedBy D tr w key attester generation issuedAt expiresAt := by
  obtain ⟨p, _, hp, -, -, -, hepoch, hseconds, -, hroot, hrevocation, hgeneration⟩ := hg.words
  have accepted := h.gatedAccepted hp
  obtain ⟨hepochMem, hsecondsMem, hgenerationMem⟩ := PoolCall.mem_inputs hp
  obtain ⟨wit, hwit⟩ := GatedProof.verifyInstance_of_screened hg.main hkey
  have hok := verifyInstance_ok hwit
  have hincluded := hok.included
  have hcontained := hok.contained
  rw [← hroot] at hincluded
  rw [← hrevocation, accepted.registry.revocation, AttestationRegistry.attesterRevocationRoot,
    RevocationTree.root, BnField.ofNat_toNat] at hcontained
  have hmem := inv.exists_issued H hL accepted.registry.known hincluded
  obtain ⟨attester, subjects, expiresAt, generation, subject, hsubject, issuedAt, hcall, hleaf⟩ :=
    inv.issued _ hmem
  rw [hleaf] at hmem
  obtain ⟨hkeyEq, hattester, hgen, hissued, hexpires⟩ := H.hash5_inj hleaf
  rw [hattester] at hcontained
  -- the words of the call are the machine integers of the proof
  have hepochNat := toNat_of_word (accepted.canonical _ hepochMem) hepoch
  have hsecondsNat := toNat_of_word (accepted.canonical _ hsecondsMem) hseconds
  have hgenerationNat := toNat_of_word (accepted.canonical _ hgenerationMem) hgeneration
  rw [accepted.epoch] at hepochNat
  rw [accepted.epochSeconds, (GatedProof.chainStep hg.main).epochSeconds] at hsecondsNat
  rw [accepted.registry.generation, UInt64.toNat_inj] at hgenerationNat
  have hunrevoked := UInt64.lt_iff_toNat_lt.mp hok.unrevoked
  have hpos : wit.revokedAt ≠ 0 := by
    intro hzero
    rw [hzero] at hunrevoked
    exact absurd hunrevoked (Nat.not_lt_zero _)
  obtain ⟨contained, hrevokedAt⟩ := inv.revocation.contains_of_verify H hcontained hpos
  refine ⟨attester, generation, issuedAt, expiresAt,
    ⟨subjects, subject, hsubject, hkeyEq.symm, hcall, hmem⟩, ?_, ?_, contained, ?_⟩
  · rw [hgenerationNat, ← ofU64_inj hgen]
    exact hok.generation
  · rw [hepochNat, hsecondsNat, ← ofU64_inj hexpires]
    exact hok.expiry
  · rw [hepochNat, hrevokedAt]
    exact hunrevoked

/-- In every run, an accepted gated operation has a proof, and whatever proof is behind it, each key
it screens is attested to at that moment. -/
theorem gated_attested (hV : D.Sound) (H : Ideal D.hash) (hL : D.imt.Lawful (merkleHash D.hash))
    {w₀ : World F T τ} (h₀ : Deployed D w₀) (hrun : Run (Transition D) w₀ tr w)
    {events : List PoolEvent} (hok : PoolCall.run D sender w call = .ok (w', events))
    (hgated : call.gated ≠ none) : (∃ g, Proves D call g) ∧
      ∀ g, Proves D call g → ∀ key ∈ g.screened D.hash, ∃ attester generation issuedAt expiresAt,
        AttestedBy D tr w key attester generation issuedAt expiresAt := by
  have hstep := PoolCall.run_step hok
  refine ⟨hstep.exists_proves hV hgated, fun g hg key hkey => ?_⟩
  exact hstep.attested H hL (Run.registryInv hL h₀ hrun) hg hkey

open Sample

/-- The withdrawal of an attested key. -/
theorem gated_attested_withdraw : ∃ w₀ tr w wp w' events, Deployed (deployment idealHash) w₀ ∧
      Run (Transition (deployment idealHash)) w₀ tr w ∧
      PoolCall.run (deployment idealHash) depositor w (.withdraw wp) = .ok (w', events) ∧
      (∃ g, Proves (deployment idealHash) (.withdraw wp) g) ∧
      ∀ g, Proves (deployment idealHash) (.withdraw wp) g → ∀ key ∈ g.screened idealHash,
        ∃ attester generation issuedAt expiresAt,
          AttestedBy (deployment idealHash) tr w key attester generation issuedAt expiresAt := by
  have hone : (1 : Address) ≠ 0 := by decide
  obtain ⟨w₀, w, dp, wp, w', events, h₀, -, hrun, hok, -, -⟩ :=
    exists_run idealHash idealHash_ideal hone
  exact ⟨w₀, _, w, wp, w', events, h₀, hrun, hok,
    gated_attested (sound idealHash) idealHash_ideal (lawful idealHash) h₀ hrun hok (Option.some_ne_none _)⟩

end Pocs.Compliance
