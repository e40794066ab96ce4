import Pocs.Lib.Method
import Pocs.Lib.Notes

/-! # Vaults of notes

A vault mints and consumes notes of several assets. A step consumes a live note only if it was minted and not
consumed before, and the balance of an asset makes up for what the step mints over what it consumes. If the other
notes have no value, then in every run the balances cover the notes that are not consumed, and a live note is
consumed once (`Vault.run_sound`). -/

namespace Pocs

structure Vault (α κ : Type _) where
  minted : List α
  consumed : List α
  balance : κ → Nat

namespace Vault

structure Move (α : Type _) where
  consumes : List α
  mints : List α

variable {α κ : Type _} (value : κ → α → Nat) (live : α → Prop)

/-- The value of notes in an asset. -/
def worth (k : κ) (cs : List α) : Nat := (cs.map (value k)).sum

structure Step (v : Vault α κ) (m : Move α) (v' : Vault α κ) : Prop where
  minted : v'.minted = v.minted ++ m.mints
  nodup : v'.minted.Nodup
  consumed : v'.consumed = v.consumed ++ m.consumes
  distinct : m.consumes.Pairwise fun c d => live c → c ≠ d
  owned : ∀ c ∈ m.consumes, live c → c ∈ v.minted ∧ c ∉ v.consumed
  backed : ∀ k, v.balance k + worth value k m.mints ≤ v'.balance k + worth value k m.consumes

/-- Nothing has been minted or consumed. -/
structure New (v : Vault α κ) : Prop where
  minted : v.minted = []
  consumed : v.consumed = []

structure Sound (initial : κ → Nat) (v : Vault α κ) : Prop where
  nodup : v.minted.Nodup
  once : v.consumed.Pairwise fun c d => live c → c ≠ d
  owned : ∀ c ∈ v.consumed, live c → c ∈ v.minted
  covered : ∀ k, initial k + unspent (value k) (· ∈ v.consumed) v.minted ≤ v.balance k

variable {value} {live} {v v' : Vault α κ} {m : Move α} {initial : κ → Nat}

theorem worth_filter (k : κ) (cs : List α) : worth value k (cs.filter fun c => value k c ≠ 0) = worth value k cs := by
  have hsum : ∀ cs : List α, unspent (value k) (fun _ => False) cs = worth value k cs := fun cs =>
    unspent_of_fresh fun _ _ _ => not_false
  rw [← hsum, unspent_filter_value, hsum]

theorem New.sound (h : New v) : Sound value live v.balance v where
  nodup := h.minted ▸ List.nodup_nil
  once := h.consumed ▸ List.Pairwise.nil
  owned c hc := absurd (h.consumed ▸ hc) List.not_mem_nil
  covered k := by rw [h.minted, unspent_nil, Nat.add_zero]

/-- What is consumed after a step had been minted before it. -/
theorem Sound.owned_before (h : Sound value live initial v) (hs : Step value live v m v') {c : α}
    (hc : c ∈ v'.consumed) (hlive : live c) : c ∈ v.minted := by
  rw [hs.consumed, List.mem_append] at hc
  rcases hc with hold | hnew
  · exact h.owned c hold hlive
  · exact (hs.owned c hnew hlive).1

theorem Sound.step (hlive : ∀ k c, value k c ≠ 0 → live c) (h : Sound value live initial v)
    (hs : Step value live v m v') : Sound value live initial v' := by
  refine ⟨hs.nodup, ?_, ?_, fun k => ?_⟩
  · rw [hs.consumed, List.pairwise_append]
    refine ⟨h.once, hs.distinct, fun c hc d hd hc' hcd => ?_⟩
    obtain rfl := hcd
    exact (hs.owned c hd hc').2 hc
  · intro c hc hc'
    rw [hs.minted]
    exact List.mem_append_left _ (h.owned_before hs hc hc')
  · have hnodup := hs.nodup
    rw [hs.minted] at hnodup
    -- what is minted now is not consumed yet
    have hminted : unspent (value k) (· ∈ v'.consumed) m.mints = worth value k m.mints := by
      refine unspent_of_fresh fun c hc hne hin => ?_
      exact (List.nodup_append.mp hnodup).2.2 c (h.owned_before hs hin (hlive k c hne)) c hc rfl
    have hmem : ∀ c ∈ m.consumes.filter fun c => value k c ≠ 0, c ∈ m.consumes ∧ value k c ≠ 0 := fun c hc =>
      ⟨(List.mem_filter.mp hc).1, of_decide_eq_true (List.mem_filter.mp hc).2⟩
    have hspent := @unspent_spendAll _ (value k) (· ∈ v.consumed) (· ∈ v'.consumed) _ h.nodup
      (m.consumes.filter fun c => value k c ≠ 0)
      ((hs.distinct.filter _).imp_of_mem fun hc _ hne => hne (hlive k _ (hmem _ hc).2))
      (fun c hc hne => hs.owned c (hmem c hc).1 (hlive k c hne))
      (fun c hne => by rw [hs.consumed, List.mem_append, List.mem_filter, decide_eq_true_eq, and_iff_left hne])
    have hworth := @worth_filter _ _ value k m.consumes
    rw [worth] at hworth
    have hbacked := hs.backed k
    have hcovered := h.covered k
    rw [hs.minted, unspent_append, hminted]
    omega

/-- Under every run of a machine whose steps are those of a vault. -/
theorem run_sound {σ ℓ : Type _} {step : σ → ℓ → σ → Prop} {view : σ → Vault α κ} {I : σ → Prop}
    (hlive : ∀ k c, value k c ≠ 0 → live c) {s₀ s : σ} {tr : List ℓ} (hrun : Run step s₀ tr s) (h₀ : I s₀)
    (hnew : (view s₀).New)
    (hstep : ∀ s l s', step s l s' → I s → I s' ∧ ∃ m, Step value live (view s) m (view s')) :
    I s ∧ (view s).Sound value live (view s₀).balance := by
  refine hrun.invariant (I := fun _ s => I s ∧ (view s).Sound value live (view s₀).balance) ⟨h₀, hnew.sound⟩ ?_
  rintro _ s l s' - hs ⟨hI, hsound⟩
  obtain ⟨hI', m, hm⟩ := hstep s l s' hs hI
  exact ⟨hI', hsound.step hlive hm⟩

end Vault

end Pocs
