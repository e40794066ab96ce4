import Pocs.Rails.Effects

/-! # Runs of the disbursement contracts

Calls to the factories, the claim contracts, the pool and the registry by anyone in any order, calls that
revert, the clock, and transfers of the token by others. The rounds and the claims of a run are read off
its steps. -/

namespace Pocs.Rails

open Compliance (Address Word BnField)

variable {F T τ : Type} [BnField F]

def Call.paid (w w' : World T τ) : Call → Nat
  | .claim claimContract _ => w.pool.balance claimContract - w'.pool.balance claimContract
  | .funderUnshieldResidual claimContract _ =>
    w.pool.balance claimContract - w'.pool.balance claimContract
  | _ => 0

/-- A factory is not the pool. -/
def Call.Placed (D : Deployment F T τ) : Call → Prop
  | .publishRound factory _ _ => factory ≠ D.poolAddress
  | _ => True

/-- A transaction, or what happens elsewhere. -/
inductive Step where
  | call (sender : Address) (call : Call) (paid : Nat)
  | reverted (sender : Address) (call : Call) (e : RailsError)
  | tick
  | elsewhere

/-- The pool calls no other contract than the token, which takes nothing from the pool unless it is
called by it. -/
inductive Transition (D : Deployment F T τ) (w : World T τ) : Step → World T τ → Prop where
  | call {sender c w'} (ok : Call.run D w sender c = .ok w') (sender_ne : sender ≠ D.poolAddress)
    (placed : c.Placed D) : Transition D w (.call sender c (c.paid w w')) w'
  | reverted {sender c e} (err : Call.run D w sender c = .error e) : Transition D w (.reverted sender c e) w
  | tick {blockNumber timestamp} (block_le : w.blockNumber ≤ blockNumber)
    (time_le : w.timestamp ≤ timestamp) : Transition D w .tick { w with blockNumber, timestamp }
  | elsewhere {token} (le : D.token.balanceOf w.token D.poolAddress ≤ D.token.balanceOf token D.poolAddress) :
    Transition D w .elsewhere { w with token }

/-- The contracts as they were deployed. -/
structure Deployed (D : Deployment F T τ) (w : World T τ) : Prop where
  pool : ∃ verifier, w.pool = ShieldedPool.new D verifier
  claims : ∀ claimContract, w.claims claimContract = .new
  published : ∀ k, w.published k = false

/-! ## Rounds of a run -/

abbrev Publication := RoundHeader × List Word

def Step.publications (claimContract : Address) : Step → List Publication
  | .call _ (.publishRound _ h commitments) _ =>
    if h.claimContractAddress = claimContract then [(h, commitments)] else []
  | _ => []

def publications (claimContract : Address) : List Step → List Publication
  | [] => []
  | st :: tr => publications claimContract tr ++ st.publications claimContract

def commitmentsOf (rounds : List Publication) : List Word := rounds.flatMap Prod.snd

@[simp] theorem commitmentsOf_append (rounds rounds' : List Publication) :
    commitmentsOf (rounds ++ rounds') = commitmentsOf rounds ++ commitmentsOf rounds' :=
  List.flatMap_append

variable {D : Deployment F T τ} {w w' : World T τ} {sender : Address}

/-- The part of the pool that governance does not change. -/
def ShieldedPool.books (pool : ShieldedPool T) : ShieldedPool T :=
  { pool with
    authorizedFactory := 0
    verifier := 0
    pendingFactory := 0
    pendingFactoryActivation := 0
    pendingVerifier := 0
    pendingVerifierActivation := 0 }

omit [BnField F] in
theorem GovernanceCall.run_books {call : GovernanceCall} {pool : ShieldedPool T}
    (h : call.run D w sender = .ok pool) : pool.books = w.pool.books := by
  cases call <;>
    simp only [GovernanceCall.run, bind_eq_ok, failIf_eq_ok, okOr_eq_ok, pure_eq_ok, exists_const] at h
  case proposeAuthorizedFactory | proposeVerifier =>
    obtain ⟨-, -, -, _, -, rfl⟩ := h
    rfl
  case finalizeAuthorizedFactory | finalizeVerifier | initAuthorizedFactory =>
    obtain ⟨-, -, -, rfl⟩ := h
    rfl

/-! ## Registrations -/

/-- A step that publishes nothing. -/
structure RoundsKept (w w' : World T τ) : Prop where
  trees : w'.pool.trees = w.pool.trees
  commitmentIndex : w'.pool.commitmentIndex = w.pool.commitmentIndex
  roots : w'.pool.roots = w.pool.roots
  published : w'.published = w.published
  roundRegistered : ∀ c, (w'.claims c).roundRegistered = (w.claims c).roundRegistered
  header : ∀ c, (w'.claims c).header = (w.claims c).header
  firstPoolLeafIndex : ∀ c, (w'.claims c).firstPoolLeafIndex = (w.claims c).firstPoolLeafIndex

theorem RoundsKept.refl {w : World T τ} : RoundsKept w w :=
  ⟨rfl, rfl, rfl, rfl, fun _ => rfl, fun _ => rfl, fun _ => rfl⟩

theorem RoundsKept.unshielded {w : World T τ} {claimContract : Address} {nullifier roundId : Word}
    {amount : Nat} {token : τ} : RoundsKept w (w.unshielded claimContract nullifier amount roundId token) :=
  ⟨rfl, rfl, rfl, rfl, fun _ => rfl, fun _ => rfl, fun _ => rfl⟩

theorem RoundsKept.recovered {w : World T τ} {claimContract : Address} {roundId : Word} {amount : Nat}
    {token : τ} : RoundsKept w (w.recovered claimContract roundId amount token) :=
  ⟨rfl, rfl, rfl, rfl, fun _ => rfl, fun _ => rfl, fun _ => rfl⟩

/-- One claim contract may change in what is not about its rounds. -/
theorem RoundsKept.setClaims {w w' : World T τ} {claimContract : Address} {cc : ClaimContract}
    (h : RoundsKept (w.setClaims claimContract cc) w')
    (hregistered : cc.roundRegistered = (w.claims claimContract).roundRegistered)
    (hheader : cc.header = (w.claims claimContract).header)
    (hfirst : cc.firstPoolLeafIndex = (w.claims claimContract).firstPoolLeafIndex) : RoundsKept w w' := by
  have hclaims : ∀ {α : Type} (f : ClaimContract → α), f cc = f (w.claims claimContract) →
      ∀ c, f ((w.setClaims claimContract cc).claims c) = f (w.claims c) := by
    intro α f hf c
    rcases eq_or_ne c claimContract with rfl | hne
    · rw [World.setClaims_self, hf]
    · rw [World.setClaims_of_ne hne]
  exact ⟨h.trees, h.commitmentIndex, h.roots, h.published,
    fun c => (h.roundRegistered c).trans (hclaims _ hregistered c),
    fun c => (h.header c).trans (hclaims _ hheader c),
    fun c => (h.firstPoolLeafIndex c).trans (hclaims _ hfirst c)⟩

section
variable {w₀ : World T τ} {tr : List Step} {st : Step}

omit [BnField F] in
theorem claim_roundsKept {claimContract sender : Address} {args : ClaimArgs}
    (h : claim D w claimContract sender args = .ok w') : RoundsKept w w' := by
  obtain ⟨roundId, _, token, -, -, -, rfl⟩ := claim_eq_ok.mp h
  exact RoundsKept.unshielded.setClaims rfl rfl rfl

omit [BnField F] in
theorem funderUnshieldResidual_roundsKept {claimContract sender : Address} {roundId : Word}
    (h : funderUnshieldResidual D w claimContract sender roundId = .ok w') : RoundsKept w w' := by
  obtain ⟨-, -, -, -, -, w₁, unclaimed, hw₁, -, hpaid⟩ := funderUnshieldResidual_ok h
  have hkept : RoundsKept w₁ w' := by
    rcases hpaid with ⟨-, rfl⟩ | ⟨-, hrecover⟩
    · exact .refl
    · obtain ⟨token, -, -, -, -, rfl⟩ := recoverResidual_eq_ok.mp hrecover
      exact .recovered
  rw [hw₁] at hkept
  exact hkept.setClaims rfl rfl rfl

theorem publications_publishRound {sender factory c : Address} {h : RoundHeader}
    {commitments : List Word} {paid : Nat} :
    publications c (.call sender (.publishRound factory h commitments) paid :: tr) =
      publications c tr ++ if h.claimContractAddress = c then [(h, commitments)] else [] :=
  rfl

theorem roundRegistered_setClaims {claimContract c : Address} {h : RoundHeader} {first : UInt64}
    {roundId : Word} :
    ((w.setClaims claimContract ((w.claims claimContract).registered h first)).claims c).roundRegistered
        roundId = true ↔
      claimContract = c ∧ roundId = h.roundId ∨ (w.claims c).roundRegistered roundId = true := by
  rcases eq_or_ne claimContract c with rfl | hne
  · simp only [World.setClaims_self, ClaimContract.registered, true_and]
    rcases eq_or_ne roundId h.roundId with rfl | hround
    · simp
    · simp [hround]
  · simp [World.setClaims_of_ne hne.symm, hne]

/-- A claim contract has the headers of its rounds, each once, and the factories know them too. -/
structure RegisteredInv (D : Deployment F T τ) (tr : List Step) (w : World T τ) : Prop where
  registered : ∀ c roundId, (w.claims c).roundRegistered roundId = true ↔
    roundId ∈ (publications c tr).map fun round => round.1.roundId
  nodup : ∀ c, ((publications c tr).map fun round => round.1.roundId).Nodup
  header : ∀ c, ∀ round ∈ publications c tr, round.1.claimContractAddress = c ∧
    (w.claims c).header round.1.roundId = round.1 ∧ round.2.length = round.1.cohortSize
  published : ∀ factory roundId, w.published (factory, roundId) = true →
    (w.claims (D.factories factory).claimContract).roundRegistered roundId = true
  published_of : ∀ c roundId, (w.claims c).roundRegistered roundId = true →
    w.published ((D.claims c).factory, roundId) = true

omit [BnField F] in
theorem RegisteredInv.init (h₀ : Deployed D w₀) : RegisteredInv D [] w₀ where
  registered c roundId := by simp [h₀.claims, ClaimContract.new, publications]
  nodup c := List.nodup_nil
  header := by simp [publications]
  published factory roundId h := by simp [h₀.published] at h
  published_of c roundId h := by simp [h₀.claims, ClaimContract.new] at h

omit [BnField F] in
theorem RegisteredInv.kept (inv : RegisteredInv D tr w) (h : RoundsKept w w')
    (hst : ∀ c, st.publications c = []) : RegisteredInv D (st :: tr) w' where
  registered c roundId := by
    rw [publications, hst, List.append_nil, h.roundRegistered]
    exact inv.registered c roundId
  nodup c := by
    rw [publications, hst, List.append_nil]
    exact inv.nodup c
  header c := by
    rw [publications, hst, List.append_nil, h.header]
    exact inv.header c
  published factory roundId := by
    rw [h.published, h.roundRegistered]
    exact inv.published factory roundId
  published_of c roundId := by
    rw [h.published, h.roundRegistered]
    exact inv.published_of c roundId

theorem RegisteredInv.notMem_of_publishRound (inv : RegisteredInv D tr w) {factory : Address}
    {h : RoundHeader} {commitments : List Word} (ok : publishRound D w factory sender h commitments = .ok w') :
    h.roundId ∉ (publications h.claimContractAddress tr).map fun round => round.1.roundId := by
  obtain ⟨-, _, _, w₂, -, -, hdeposits, hregister⟩ := publishRound_eq_ok.mp ok
  obtain ⟨-, hnew, -⟩ := registerHeader_eq_ok.mp hregister
  have hclaims : w₂.claims = w.claims := (depositAll_ok hdeposits).claims
  rw [← inv.registered, ← hclaims, hnew]
  exact Bool.noConfusion

theorem RegisteredInv.publishRound (inv : RegisteredInv D tr w) {factory : Address} {h : RoundHeader}
    {commitments : List Word} {paid : Nat} (ok : publishRound D w factory sender h commitments = .ok w') :
    RegisteredInv D (.call sender (.publishRound factory h commitments) paid :: tr) w' := by
  have hround := inv.notMem_of_publishRound ok
  obtain ⟨hpublish, token₁, token₂, w₂, -, -, hdeposits, hregister⟩ := publishRound_eq_ok.mp ok
  have hall := depositAll_ok hdeposits
  obtain ⟨hfactory, -, rfl⟩ := registerHeader_eq_ok.mp hregister
  have hclaims : w₂.claims = w.claims := hall.claims
  have hpublished : w₂.published = Function.update w.published (factory, h.roundId) true :=
    hall.published
  refine ⟨fun c roundId => ?_, fun c => ?_, fun c round hmem => ?_, fun factory' roundId hpub => ?_,
    fun c roundId hreg => ?_⟩
  · rw [roundRegistered_setClaims, hclaims, inv.registered, publications_publishRound, List.map_append,
      List.mem_append]
    split
    · next heq => simp [heq, or_comm]
    · next hne => simp [hne]
  · rw [publications_publishRound, List.map_append]
    split
    · next heq =>
      subst heq
      rw [List.nodup_append]
      refine ⟨inv.nodup _, List.nodup_singleton _, fun a ha b hb hab => ?_⟩
      rw [hab, List.mem_singleton.mp hb] at ha
      exact hround ha
    · next hne =>
      rw [List.map_nil, List.append_nil]
      exact inv.nodup c
  · rw [publications_publishRound] at hmem
    split at hmem
    · next heq =>
      subst heq
      rw [World.setClaims_self, hclaims]
      rcases List.mem_append.mp hmem with hold | hlast
      · obtain ⟨hcontract, hheader, hlength⟩ := inv.header _ round hold
        have hne : round.1.roundId ≠ h.roundId := fun heq => hround (heq ▸ List.mem_map_of_mem hold)
        exact ⟨hcontract, (Function.update_of_ne hne ..).trans hheader, hlength⟩
      · obtain rfl := List.mem_singleton.mp hlast
        exact ⟨rfl, Function.update_self .., hpublish.length⟩
    · next hne =>
      rw [World.setClaims_of_ne (Ne.symm hne), hclaims]
      rw [List.append_nil] at hmem
      exact inv.header c round hmem
  · rw [roundRegistered_setClaims, hclaims]
    rw [World.setClaims_published, hpublished] at hpub
    by_cases hkey : (factory', roundId) = (factory, h.roundId)
    · cases hkey
      exact .inl ⟨hpublish.contract, rfl⟩
    · rw [Function.update_of_ne hkey] at hpub
      exact .inr (inv.published factory' roundId hpub)
  · rw [roundRegistered_setClaims, hclaims] at hreg
    rw [World.setClaims_published, hpublished]
    rcases hreg with ⟨rfl, rfl⟩ | hreg
    · rw [← hfactory, Function.update_self]
    · by_cases hkey : ((D.claims c).factory, roundId) = (factory, h.roundId)
      · rw [hkey, Function.update_self]
      · rw [Function.update_of_ne hkey]
        exact inv.published_of c roundId hreg

/-- A step publishes a round or keeps the rounds. -/
theorem Transition.publishes_or (h : Transition D w st w') : (∃ sender factory header commitments paid,
      st = .call sender (.publishRound factory header commitments) paid ∧
        Rails.publishRound D w factory sender header commitments = .ok w') ∨
    RoundsKept w w' ∧ ∀ c, st.publications c = [] := by
  cases h with
  | @call sender c w' ok =>
    cases c with
    | publishRound factory h commitments => exact .inl ⟨_, _, _, _, _, rfl, ok⟩
    | claim => exact .inr ⟨claim_roundsKept ok, fun _ => rfl⟩
    | funderUnshieldResidual => exact .inr ⟨funderUnshieldResidual_roundsKept ok, fun _ => rfl⟩
    | governance =>
      simp only [Call.run, bind_eq_ok, pure_eq_ok] at ok
      obtain ⟨pool, hpool, rfl⟩ := ok
      have hbooks := GovernanceCall.run_books hpool
      have htrees : pool.books.trees = w.pool.books.trees := by rw [hbooks]
      have hindex : pool.books.commitmentIndex = w.pool.books.commitmentIndex := by rw [hbooks]
      have hroots : pool.books.roots = w.pool.books.roots := by rw [hbooks]
      exact .inr ⟨⟨htrees, hindex, hroots, rfl, fun _ => rfl, fun _ => rfl, fun _ => rfl⟩, fun _ => rfl⟩
    | registry =>
      simp only [Call.run, bind_eq_ok, pure_eq_ok] at ok
      obtain ⟨registry, -, rfl⟩ := ok
      exact .inr ⟨⟨rfl, rfl, rfl, rfl, fun _ => rfl, fun _ => rfl, fun _ => rfl⟩, fun _ => rfl⟩
  | reverted | tick | elsewhere =>
    exact .inr ⟨⟨rfl, rfl, rfl, rfl, fun _ => rfl, fun _ => rfl, fun _ => rfl⟩, fun _ => rfl⟩

theorem RegisteredInv.step (inv : RegisteredInv D tr w) (h : Transition D w st w') :
    RegisteredInv D (st :: tr) w' := by
  rcases h.publishes_or with ⟨sender, factory, header, commitments, paid, rfl, ok⟩ | ⟨hkept, hst⟩
  · exact inv.publishRound ok
  · exact inv.kept hkept hst

end

end Pocs.Rails
