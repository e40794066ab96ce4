import Pocs.Compliance.Registry

/-! # The issuance calendar

`_checkExpiry` of the registry, in checked 256-bit arithmetic, against the calendar of
`domain/attestation.rs`, in 64-bit arithmetic. Where the client does not overflow the registry accepts the
client's values and no other (`checkExpiry_eq_ok`), so that a cohort can be issued at every epoch, and an
accepted expiry passes the test of the circuit at that epoch. -/

namespace Pocs.Compliance

namespace Cohort

def calendarExpiresAt (currentEpoch epochSeconds maxAttestationEpochs : UInt64) : UInt64 :=
  let period := currentEpoch / maxAttestationEpochs
  (period + 1) * maxAttestationEpochs * epochSeconds

def nextPeriodExpiresAt (currentEpoch epochSeconds maxAttestationEpochs : UInt64) : UInt64 :=
  let period := currentEpoch / maxAttestationEpochs
  (period + 2) * maxAttestationEpochs * epochSeconds

/-- True for the final `overlap_epochs` epochs of the current period. -/
def inOverlapWindow (currentEpoch maxAttestationEpochs overlapEpochs : UInt64) : Bool :=
  if overlapEpochs = 0 then false
  else
    let boundary := (currentEpoch / maxAttestationEpochs + 1) * maxAttestationEpochs
    currentEpoch + overlapEpochs ≥ boundary

/-- No computation of the client wraps; the next period's value is computed in the overlap window. -/
structure NoOverflow (epoch epochSeconds maxAttestationEpochs overlapEpochs : UInt64) : Prop where
  calendar : (epoch.toNat / maxAttestationEpochs.toNat + 1) * maxAttestationEpochs.toNat *
    epochSeconds.toNat < 2 ^ 64
  window : epoch.toNat + overlapEpochs.toNat < 2 ^ 64
  next : inOverlapWindow epoch maxAttestationEpochs overlapEpochs = true →
    (epoch.toNat / maxAttestationEpochs.toNat + 2) * maxAttestationEpochs.toNat * epochSeconds.toNat < 2 ^ 64

end Cohort

open Cohort

section
variable {e m o s : Nat}

/-- The next period boundary lies ahead, at most one period. -/
theorem lt_boundary (hm : 0 < m) (e : Nat) : e < (e / m + 1) * m ∧ (e / m + 1) * m ≤ e + m := by
  have hdiv := Nat.div_add_mod e m
  have hmod := Nat.mod_lt e hm
  have hcomm : e / m * m = m * (e / m) := Nat.mul_comm _ _
  rw [Nat.succ_mul]
  omega

theorem calendar_interval (hs : 0 < s) (hm : 0 < m) :
    (e + 1) * s ≤ (e / m + 1) * m * s ∧ (e / m + 1) * m * s < (e + 1 + m + o) * s := by
  obtain ⟨hlt, hle⟩ := lt_boundary hm e
  exact ⟨Nat.mul_le_mul_right s hlt, Nat.mul_lt_mul_of_pos_right (by omega) hs⟩

/-- In the overlap window so does the next period's. -/
theorem next_interval (hs : 0 < s) (hm : 0 < m) (hwindow : (e / m + 1) * m ≤ e + o) :
    (e + 1) * s ≤ (e / m + 2) * m * s ∧ (e / m + 2) * m * s < (e + 1 + m + o) * s := by
  obtain ⟨hlt, -⟩ := lt_boundary hm e
  have hnext : (e / m + 2) * m = (e / m + 1) * m + m := Nat.succ_mul _ _
  rw [hnext]
  exact ⟨Nat.mul_le_mul_right s (by omega), Nat.mul_lt_mul_of_pos_right (by omega) hs⟩

end

/-! ## The registry against the client -/

namespace AttestationRegistry

section
variable {F T : Type} {C : RegistryConfig F T} {timestamp : Nat} {epoch s m o : UInt64}

/-- The client's numbers are those of the contract. -/
structure Shares (C : RegistryConfig F T) (timestamp : Nat) (epoch s m o : UInt64) : Prop where
  epochSeconds : C.epochSeconds = s.toNat
  maxAttestationEpochs : C.maxAttestationEpochs = m.toNat
  overlapEpochs : C.overlapEpochs = o.toNat
  epoch : currentEpoch C timestamp = epoch.toNat

theorem u256_of_lt {n : Nat} (h : n < 2 ^ 256) : u256 n = .ok n := by
  rw [u256, failIf_neg (not_le.mpr h)]
  rfl

theorem toUint64_of_lt {n : Nat} (h : n < 2 ^ 64) : toUint64 n = .ok (.ofNat n) := by
  rw [toUint64, failIf_neg (not_le.mpr h)]
  rfl

/-- A product of three that fits 64 bits, factor by factor. -/
theorem toNat_product {k : Nat} {p : UInt64} (hp : p.toNat = k) (hs : 0 < s.toNat)
    (h : k * m.toNat * s.toNat < 2 ^ 64) : (p * m * s).toNat = k * m.toNat * s.toNat := by
  have hle : k * m.toNat ≤ k * m.toNat * s.toNat := Nat.le_mul_of_pos_right _ hs
  rw [UInt64.toNat_mul, UInt64.toNat_mul, hp, Nat.mod_eq_of_lt (hle.trans_lt h), Nat.mod_eq_of_lt h]

/-- The period of an epoch, counted from `d`. -/
theorem toNat_period (hs : 0 < s.toNat) (hm : 0 < m.toNat) {d : UInt64}
    (h : (epoch.toNat / m.toNat + d.toNat) * m.toNat * s.toNat < 2 ^ 64) :
    (epoch / m + d).toNat = epoch.toNat / m.toNat + d.toNat := by
  have hle : epoch.toNat / m.toNat + d.toNat ≤ (epoch.toNat / m.toNat + d.toNat) * m.toNat * s.toNat := by
    rw [Nat.mul_assoc]
    exact Nat.le_mul_of_pos_right _ (Nat.mul_pos hm hs)
  rw [UInt64.toNat_add, UInt64.toNat_div, Nat.mod_eq_of_lt (hle.trans_lt h)]

/-- What both sides share, and what the claim of no overflow says. -/
structure Calendar (C : RegistryConfig F T) (timestamp : Nat) (epoch s m o : UInt64) : Prop where
  shares : Shares C timestamp epoch s m o
  seconds : 0 < s.toNat
  overlap : o.toNat < m.toNat
  noOverflow : Cohort.NoOverflow epoch s m o

namespace Calendar

section
variable (H : Calendar C timestamp epoch s m o)
include H

theorem pos : 0 < m.toNat := H.overlap.bot_lt

theorem toNat_calendarExpiresAt :
    (calendarExpiresAt epoch s m).toNat = (epoch.toNat / m.toNat + 1) * m.toNat * s.toNat :=
  toNat_product (@toNat_period epoch s m H.seconds H.pos 1 H.noOverflow.calendar) H.seconds
    H.noOverflow.calendar

theorem toNat_nextPeriodExpiresAt (hwindow : Cohort.inOverlapWindow epoch m o = true) :
    (nextPeriodExpiresAt epoch s m).toNat = (epoch.toNat / m.toNat + 2) * m.toNat * s.toNat :=
  toNat_product (@toNat_period epoch s m H.seconds H.pos 2 (H.noOverflow.next hwindow)) H.seconds
    (H.noOverflow.next hwindow)

theorem calendarExpiry :
    AttestationRegistry.calendarExpiry C epoch.toNat = .ok (calendarExpiresAt epoch s m) := by
  have h := H.noOverflow.calendar
  simp only [AttestationRegistry.calendarExpiry, H.shares.maxAttestationEpochs, H.shares.epochSeconds]
  rw [u256_of_lt (h.trans (by norm_num)), ok_bind, toUint64_of_lt h, ← H.toNat_calendarExpiresAt,
    UInt64.ofNat_toNat]

theorem nextCalendarExpiry (hwindow : Cohort.inOverlapWindow epoch m o = true) :
    AttestationRegistry.nextCalendarExpiry C epoch.toNat = .ok (nextPeriodExpiresAt epoch s m) := by
  have h := H.noOverflow.next hwindow
  simp only [AttestationRegistry.nextCalendarExpiry, H.shares.maxAttestationEpochs, H.shares.epochSeconds]
  rw [u256_of_lt (h.trans (by norm_num)), ok_bind, toUint64_of_lt h, ← H.toNat_nextPeriodExpiresAt hwindow,
    UInt64.ofNat_toNat]

/-- The client's window is the registry's. -/
theorem inOverlapWindow :
    AttestationRegistry.inOverlapWindow C epoch.toNat = Cohort.inOverlapWindow epoch m o := by
  have hsum : (epoch + o).toNat = epoch.toNat + o.toNat := by
    rw [UInt64.toNat_add, Nat.mod_eq_of_lt H.noOverflow.window]
  have hboundary : ((epoch / m + 1) * m).toNat = (epoch.toNat / m.toNat + 1) * m.toNat := by
    have hle := Nat.le_mul_of_pos_right ((epoch.toNat / m.toNat + 1) * m.toNat) H.seconds
    have hperiod : (epoch / m + 1).toNat = epoch.toNat / m.toNat + 1 :=
      @toNat_period epoch s m H.seconds H.pos 1 H.noOverflow.calendar
    rw [UInt64.toNat_mul, hperiod, Nat.mod_eq_of_lt (hle.trans_lt H.noOverflow.calendar)]
  have hzero : o.toNat = 0 ↔ o = 0 := by rw [← UInt64.toNat_inj]; rfl
  simp only [AttestationRegistry.inOverlapWindow, Cohort.inOverlapWindow, H.shares.overlapEpochs,
    H.shares.maxAttestationEpochs, ge_iff_le, UInt64.le_iff_toNat_le, hsum, hboundary, hzero]

/-- Inside the window the boundary is within reach of the overlap. -/
theorem boundary_le (hwindow : Cohort.inOverlapWindow epoch m o = true) :
    (epoch.toNat / m.toNat + 1) * m.toNat ≤ epoch.toNat + o.toNat := by
  rw [← H.inOverlapWindow, AttestationRegistry.inOverlapWindow, H.shares.overlapEpochs,
    H.shares.maxAttestationEpochs] at hwindow
  split at hwindow
  · cases hwindow
  · exact of_decide_eq_true hwindow

end

/-- The two bounds of the interval are computed without overflow. -/
theorem bounds_lt (epoch s m o : UInt64) : (epoch.toNat + 1 + m.toNat + o.toNat) * s.toNat < 2 ^ 256 := by
  calc (epoch.toNat + 1 + m.toNat + o.toNat) * s.toNat
      ≤ (2 ^ 64 + 1 + 2 ^ 64 + 2 ^ 64) * 2 ^ 64 := by
        have he := epoch.toNat_lt
        have hm := m.toNat_lt
        have ho := o.toNat_lt
        exact Nat.mul_le_mul (by omega) s.toNat_lt.le
    _ < 2 ^ 256 := by norm_num

/-- The values on the calendar lie in the interval. -/
theorem interval (H : Calendar C timestamp epoch s m o) {expiresAt : UInt64}
    (h : expiresAt = calendarExpiresAt epoch s m ∨
      (Cohort.inOverlapWindow epoch m o = true ∧ expiresAt = nextPeriodExpiresAt epoch s m)) :
    (epoch.toNat + 1) * s.toNat ≤ expiresAt.toNat ∧
      expiresAt.toNat < (epoch.toNat + 1 + m.toNat + o.toNat) * s.toNat := by
  rcases h with rfl | ⟨hwindow, rfl⟩
  · rw [H.toNat_calendarExpiresAt]
    exact calendar_interval H.seconds H.pos
  · rw [H.toNat_nextPeriodExpiresAt hwindow]
    exact next_interval H.seconds H.pos (H.boundary_le hwindow)

/-- The registry accepts the calendar value, and the next one inside the window. -/
theorem checkExpiry_eq_ok (H : Calendar C timestamp epoch s m o) {expiresAt : UInt64} :
    checkExpiry C timestamp expiresAt = .ok () ↔ expiresAt = calendarExpiresAt epoch s m ∨
      (Cohort.inOverlapWindow epoch m o = true ∧ expiresAt = nextPeriodExpiresAt epoch s m) := by
  have hlast := bounds_lt epoch s m o
  have hfirst : (epoch.toNat + 1) * s.toNat < 2 ^ 256 :=
    (Nat.mul_le_mul_right s.toNat (by omega)).trans_lt hlast
  simp only [checkExpiry, H.shares.epoch, H.shares.epochSeconds, H.shares.maxAttestationEpochs,
    H.shares.overlapEpochs, u256_of_lt hfirst, u256_of_lt hlast, ok_bind, H.calendarExpiry,
    H.inOverlapWindow, bind_eq_ok, failIf_eq_ok, exists_const, not_lt, not_le]
  constructor
  · rintro ⟨-, -, h⟩
    split at h
    · next hc =>
      rw [H.nextCalendarExpiry hc.2, ok_bind, pure_bind, failIf_eq_ok, Bool.not_eq_false] at h
      exact .inr ⟨hc.2, of_decide_eq_true h⟩
    · rw [pure_bind, failIf_eq_ok, Bool.not_eq_false] at h
      exact .inl (of_decide_eq_true h)
  · intro h
    obtain ⟨hlow, hhigh⟩ := H.interval h
    refine ⟨hlow, hhigh, ?_⟩
    by_cases hcal : expiresAt = calendarExpiresAt epoch s m
    · rw [if_neg fun hc => hc.1 hcal, pure_bind, failIf_eq_ok, Bool.not_eq_false]
      exact decide_eq_true hcal
    · obtain ⟨hwindow, hnext⟩ := h.resolve_left hcal
      rw [if_pos ⟨hcal, hwindow⟩, H.nextCalendarExpiry hwindow, ok_bind, pure_bind, failIf_eq_ok,
        Bool.not_eq_false]
      exact decide_eq_true hnext

end Calendar

/-- The registry's calendar is the client's: it accepts the calendar value and, exactly in the overlap
window, that of the next period; both lie in the interval it checks; and what it issues at an epoch
passes the expiry test of the circuit at that epoch. -/
theorem checkExpiry_calendar [BnField F] (hshares : Shares C timestamp epoch s m o) (hs : 0 < s) (hom : o < m)
    (hfits : Cohort.NoOverflow epoch s m o) : (∀ expiresAt, checkExpiry C timestamp expiresAt = .ok () ↔
      expiresAt = calendarExpiresAt epoch s m ∨
        (Cohort.inOverlapWindow epoch m o = true ∧ expiresAt = nextPeriodExpiresAt epoch s m)) ∧
    (∀ expiresAt, expiresAt = calendarExpiresAt epoch s m ∨
        (Cohort.inOverlapWindow epoch m o = true ∧ expiresAt = nextPeriodExpiresAt epoch s m) →
      (epoch.toNat + 1) * s.toNat ≤ expiresAt.toNat ∧
        expiresAt.toNat < (epoch.toNat + 1 + m.toNat + o.toNat) * s.toNat) ∧
    ∀ (self : AttestationRegistry F T) (sender : Address) (subjects : List Word)
      (expiresAt generation : UInt64) (r : AttestationRegistry F T × List RegistryEvent),
      self.addAttestations C sender timestamp subjects expiresAt generation = .ok r →
        expiryTest s epoch expiresAt = .ok () := by
  have H : Calendar C timestamp epoch s m o :=
    ⟨hshares, UInt64.lt_iff_toNat_lt.mp hs, UInt64.lt_iff_toNat_lt.mp hom, hfits⟩
  refine ⟨fun _ => H.checkExpiry_eq_ok, fun _ => H.interval, ?_⟩
  intro self sender subjects expiresAt generation r h
  simp only [addAttestations, bind_eq_ok] at h
  obtain ⟨_, -, _, -, _, hexpiry, -⟩ := h
  exact (expiryTest_eq_ok H.seconds).mpr (H.interval (H.checkExpiry_eq_ok.mp hexpiry)).1

end

end AttestationRegistry

def Sample.calendarConfig : RegistryConfig Civic.Fr (LeanImtTree fun (a : Civic.Fr) _ => a) where
  hash xs := xs.headD 0
  imt := leanImt _
  epochSeconds := 86400
  maxAttestationEpochs := 7
  minCohortSize := 1
  overlapEpochs := 2

/-- Day 13 is the last one of its week, so that the end of the next week is accepted. -/
theorem AttestationRegistry.checkExpiry_calendar_sample :
    checkExpiry Sample.calendarConfig (13 * 86400) (21 * 86400) = .ok () := by
  have hshares : Shares Sample.calendarConfig (13 * 86400) 13 86400 7 2 := ⟨rfl, rfl, rfl, rfl⟩
  have hfits : Cohort.NoOverflow 13 86400 7 2 := ⟨by decide, by decide, fun _ => by decide⟩
  exact ((checkExpiry_calendar hshares (by decide) (by decide) hfits).1 _).mpr (.inr ⟨by decide, by decide⟩)

end Pocs.Compliance
