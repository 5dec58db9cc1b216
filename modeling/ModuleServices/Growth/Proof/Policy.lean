import ModuleServices.Growth.Policy

/-!
# What `GrowthPolicy::Next` returns

The doubling loop guards itself at half the range, so it finds the least doubling that holds
the need or says that there is none in 64 bits. The headroom is computed in two products that
together are the exact percentage, but only modulo 2^64: past that, a sum that still fits is
taken for the capacity. `Representable` says when this does not happen.
-/

namespace ModuleServices

namespace Proof

open GrowthPolicy

/-- The doublings of a capacity that hold the need. -/
def Doublings (base needed : Nat) : Set Nat := {c | needed ≤ c ∧ ∃ k, c = base * 2 ^ k}

theorem double_spec {needed : Nat} (hneeded : needed ≤ kMax) : ∀ fuel base, 0 < base →
    base ≤ kMax → kMax < base * 2 ^ fuel →
    ∃ least, IsLeast (Doublings base needed) least
      ∧ double needed fuel base = if least ≤ kMax then .ok least else .error lengthError := by
  intro fuel
  induction fuel with
  | zero =>
    intro base _ hle hfuel
    rw [Nat.pow_zero, Nat.mul_one] at hfuel
    omega
  | succ fuel ih =>
    intro base hpos hle hfuel
    rw [double]
    by_cases hsmall : base < needed
    · -- the need is past the capacity itself, so the doublings are those of twice it
      have hsame : Doublings (base * 2) needed = Doublings base needed := by
        ext c
        constructor
        · intro hc
          obtain ⟨hholds, k, rfl⟩ := hc
          exact ⟨hholds, k + 1, by rw [Nat.pow_succ, Nat.mul_comm (2 ^ k), Nat.mul_assoc]⟩
        · intro hc
          obtain ⟨hholds, k, rfl⟩ := hc
          cases k with
          | zero =>
            rw [Nat.pow_zero, Nat.mul_one] at hholds
            omega
          | succ k =>
            exact ⟨hholds, k, by rw [Nat.pow_succ, Nat.mul_comm (2 ^ k), Nat.mul_assoc]⟩
      rw [if_pos hsmall]
      by_cases hguard : base > kMax / 2
      · have hover : kMax < base * 2 := by
          have hodd : kMax = 2 * (kMax / 2) + 1 := by decide
          omega
        refine ⟨base * 2, ⟨?_, ?_⟩, ?_⟩
        · exact ⟨by omega, 1, rfl⟩
        · intro c hc
          rw [← hsame] at hc
          obtain ⟨-, k, rfl⟩ := hc
          exact Nat.le_mul_of_pos_right _ (Nat.two_pow_pos k)
        · rw [if_pos hguard, if_neg (Nat.not_le.mpr hover)]
      · rw [if_neg hguard, ← hsame]
        refine ih (base * 2) (by omega) (by omega) ?_
        rw [Nat.mul_assoc, Nat.mul_comm 2, ← Nat.pow_succ]
        exact hfuel
    · rw [if_neg hsmall]
      refine ⟨base, ⟨⟨Nat.not_lt.mp hsmall, 0, by rw [Nat.pow_zero, Nat.mul_one]⟩, ?_⟩, ?_⟩
      · intro c hc
        obtain ⟨-, k, rfl⟩ := hc
        exact Nat.le_mul_of_pos_right _ (Nat.two_pow_pos k)
      · rw [if_pos hle]

/-- The two products are the percentage, rounded down once. -/
theorem percentage_eq (needed percent : Nat) :
    needed / 100 * percent + needed % 100 * percent / 100 = needed * percent / 100 := by
  have hsplit : needed * percent = needed % 100 * percent + needed / 100 * percent * 100 := by
    calc needed * percent = (needed % 100 + 100 * (needed / 100)) * percent := by
          rw [Nat.mod_add_div]
      _ = needed % 100 * percent + needed / 100 * percent * 100 := by
          rw [Nat.add_mul]
          congr 1
          rw [Nat.mul_comm 100, Nat.mul_right_comm]
  rw [hsplit, Nat.add_mul_div_right _ _ (by decide), Nat.add_comm]

variable {policy : GrowthPolicy} {current needed value : Nat}

theorem capacity_eq : (if current > policy.minimum then current else policy.minimum)
    = max current policy.minimum := by
  split <;> omega

theorem next_held (h : needed ≤ max current policy.minimum) :
    policy.next current needed = .ok (max current policy.minimum) := by
  unfold next
  simp only [capacity_eq]
  rw [if_pos h]

theorem next_headroom (h : max current policy.minimum < needed) (hkind : policy.kind = .headroom) :
    policy.next current needed =
      if needed * policy.percent / 100 % 2 ^ 64 > kMax - needed then .error lengthError
      else .ok (max policy.minimum (needed + needed * policy.percent / 100 % 2 ^ 64)) := by
  unfold next
  simp only [capacity_eq, hkind, percentage_eq]
  rw [if_neg (Nat.not_le.mpr h)]
  split
  · rfl
  · rw [Nat.max_comm]

theorem next_doubling (hneeded : needed ≤ kMax) (hcurrent : current ≤ kMax)
    (hminimum : policy.minimum ≤ kMax) (h : max current policy.minimum < needed)
    (hkind : policy.kind = .doubling) :
    ∃ least, IsLeast (Doublings (max (max current policy.minimum) 1) needed) least
      ∧ policy.next current needed = if least ≤ kMax then .ok least else .error lengthError := by
  have hbase : (if max current policy.minimum = 0 then 1 else max current policy.minimum)
      = max (max current policy.minimum) 1 := by
    split <;> omega
  have hone : 1 ≤ max (max current policy.minimum) 1 := Nat.le_max_right _ _
  have hpower : kMax < 1 * 2 ^ 64 := by decide
  unfold next
  simp only [capacity_eq, hkind, hbase]
  rw [if_neg (Nat.not_le.mpr h)]
  refine double_spec hneeded 64 _ hone ?_ ?_
  · have : 1 ≤ kMax := by decide
    omega
  · exact Nat.lt_of_lt_of_le hpower (Nat.mul_le_mul_right _ hone)

/-- A capacity returned is no smaller than the need, the capacity held or the minimum. -/
theorem next_bounds (hneeded : needed ≤ kMax) (hcurrent : current ≤ kMax)
    (hminimum : policy.minimum ≤ kMax) (h : policy.next current needed = .ok value) :
    needed ≤ value ∧ current ≤ value ∧ policy.minimum ≤ value := by
  rcases Nat.lt_or_ge (max current policy.minimum) needed with hgrow | hheld
  · cases hkind : policy.kind with
    | headroom =>
      rw [next_headroom hgrow hkind] at h
      split at h
      · cases h
      · cases h
        omega
    | doubling =>
      obtain ⟨least, ⟨hmem, -⟩, hnext⟩ := next_doubling hneeded hcurrent hminimum hgrow hkind
      rw [hnext] at h
      split at h
      · cases h
        have := hmem.1
        omega
      · cases h
  · rw [next_held hheld] at h
    cases h
    omega

/-- What holds the need is kept. -/
theorem next_again (hvalue : needed ≤ value ∧ policy.minimum ≤ value) :
    policy.next value needed = .ok value := by
  have hmax : max value policy.minimum = value := Nat.max_eq_left hvalue.2
  rw [next_held (by omega), hmax]

/-- The headroom fits 64 bits, or the sum is past them even with what is left of it. -/
def Representable (policy : GrowthPolicy) (current needed : Nat) : Prop :=
  policy.kind = .headroom → max current policy.minimum < needed →
    needed * policy.percent / 100 ≤ kMax
      ∨ kMax < needed + needed * policy.percent / 100 % 2 ^ 64

instance (policy : GrowthPolicy) (current needed : Nat) :
    Decidable (Representable policy current needed) := by
  unfold Representable
  infer_instance

/-- The capacity `Next` owes for a need past what is held, by the policy's own words. -/
def owed (policy : GrowthPolicy) (needed : Nat) : Except String Nat :=
  if needed + needed * policy.percent / 100 ≤ kMax then
    .ok (max policy.minimum (needed + needed * policy.percent / 100))
  else .error lengthError

theorem headroom_exact_iff (hneeded : needed ≤ kMax) (h : max current policy.minimum < needed)
    (hkind : policy.kind = .headroom) :
    policy.next current needed = owed policy needed ↔ Representable policy current needed := by
  rw [next_headroom h hkind]
  unfold owed Representable
  have hpow : (2 : Nat) ^ 64 = kMax + 1 := by decide
  generalize needed * policy.percent / 100 = extra
  rw [hpow]
  by_cases hfits : extra ≤ kMax
  · rw [Nat.mod_eq_of_lt (Nat.lt_succ_of_le hfits)]
    refine ⟨fun _ _ _ => .inl hfits, fun _ => ?_⟩
    by_cases hsum : needed + extra ≤ kMax
    · rw [if_neg (by omega), if_pos hsum]
    · rw [if_pos (by omega), if_neg hsum]
  · rw [if_neg (show ¬needed + extra ≤ kMax by omega)]
    by_cases hsum : kMax < needed + extra % (kMax + 1)
    · rw [if_pos (by omega)]
      exact ⟨fun _ _ _ => .inr hsum, fun _ => rfl⟩
    · rw [if_neg (by omega)]
      refine ⟨fun heq => ?_, fun hcond => ?_⟩
      · cases heq
      · rcases hcond hkind h with hle | hlt
        · exact absurd hle hfits
        · exact absurd hlt hsum

/-- A larger need gets no smaller a capacity. -/
theorem next_mono {needed' value' : Nat} (hneeded : needed ≤ kMax) (hcurrent : current ≤ kMax)
    (hminimum : policy.minimum ≤ kMax) (hle : needed' ≤ needed)
    (hcond : Representable policy current needed) (hcond' : Representable policy current needed')
    (h : policy.next current needed = .ok value)
    (h' : policy.next current needed' = .ok value') : value' ≤ value := by
  have hbounds := next_bounds hneeded hcurrent hminimum h
  rcases Nat.lt_or_ge (max current policy.minimum) needed' with hgrow' | hheld'
  · have hgrow : max current policy.minimum < needed := Nat.lt_of_lt_of_le hgrow' hle
    have hneeded' := Nat.le_trans hle hneeded
    cases hkind : policy.kind with
    | headroom =>
      rw [(headroom_exact_iff hneeded hgrow hkind).mpr hcond] at h
      rw [(headroom_exact_iff hneeded' hgrow' hkind).mpr hcond'] at h'
      have hextra : needed' * policy.percent / 100 ≤ needed * policy.percent / 100 :=
        Nat.div_le_div_right (Nat.mul_le_mul_right _ hle)
      unfold owed at h h'
      split at h
      · split at h'
        · cases h
          cases h'
          omega
        · cases h'
      · cases h
    | doubling =>
      obtain ⟨least, ⟨hmem, -⟩, hnext⟩ := next_doubling hneeded hcurrent hminimum hgrow hkind
      obtain ⟨least', ⟨-, hleast'⟩, hnext'⟩ := next_doubling hneeded' hcurrent hminimum hgrow' hkind
      rw [hnext] at h
      rw [hnext'] at h'
      have hmem' : least ∈ Doublings (max (max current policy.minimum) 1) needed' :=
        ⟨Nat.le_trans hle hmem.1, hmem.2⟩
      split at h
      · split at h'
        · cases h
          cases h'
          exact hleast' hmem'
        · cases h'
      · cases h
  · rw [next_held hheld'] at h'
    cases h'
    omega

/-- What is said of `Next` for one need: what it returns or throws, and the bounds of what it
returns. -/
structure NextHolds (policy : GrowthPolicy) (current needed : Nat) : Prop where
  held : needed ≤ max current policy.minimum →
    policy.next current needed = .ok (max current policy.minimum)
  doubling : max current policy.minimum < needed → policy.kind = .doubling →
    ∃ least, IsLeast (Doublings (max (max current policy.minimum) 1) needed) least
      ∧ policy.next current needed = if least ≤ kMax then .ok least else .error lengthError
  headroom : max current policy.minimum < needed → policy.kind = .headroom →
    policy.next current needed = owed policy needed
  bounds : ∀ value, policy.next current needed = .ok value →
    needed ≤ value ∧ current ≤ value ∧ policy.minimum ≤ value
  mono : ∀ needed' value' value, needed' ≤ needed → Representable policy current needed' →
    policy.next current needed' = .ok value' → policy.next current needed = .ok value →
    value' ≤ value
  again : ∀ value, policy.next current needed = .ok value → policy.next value needed = .ok value

end Proof

namespace GrowthPolicy

open Proof

/-- `Next` is exact, never too small, nondecreasing in the need and idempotent, if and only if its
headroom fits 64 bits or the sum is past them even with what is left of it. -/
theorem next_exact_iff (policy : GrowthPolicy) (current needed : Nat)
    (hminimum : policy.minimum ≤ kMax) (hcurrent : current ≤ kMax) (hneeded : needed ≤ kMax) :
    NextHolds policy current needed ↔ Representable policy current needed := by
  constructor
  · intro h hkind hgrow
    exact (headroom_exact_iff hneeded hgrow hkind).mp (h.headroom hgrow hkind) hkind hgrow
  · intro hcond
    refine ⟨next_held, next_doubling hneeded hcurrent hminimum, fun hgrow hkind => ?_,
      fun value => next_bounds hneeded hcurrent hminimum, ?_, fun value h => ?_⟩
    · exact (headroom_exact_iff hneeded hgrow hkind).mpr hcond
    · intro needed' value' value hle hcond' h' h
      exact next_mono hneeded hcurrent hminimum hle hcond hcond' h h'
    · obtain ⟨hneed, -, hmin⟩ := next_bounds hneeded hcurrent hminimum h
      exact next_again ⟨hneed, hmin⟩

theorem next_exact_quarter :
    NextHolds { kind := .headroom, percent := 25, minimum := 64 } 7 1000
      ↔ Representable { kind := .headroom, percent := 25, minimum := 64 } 7 1000 :=
  next_exact_iff _ 7 1000 (by decide) (by decide) (by decide)

/-- A headroom that is 2^64 units exactly leaves none, and the need itself is returned. -/
theorem headroom_wraps :
    ¬NextHolds { kind := .headroom, percent := 2 ^ 31, minimum := 1 } 0 (100 * 2 ^ 33) := by
  intro h
  have := h.headroom (by decide) rfl
  revert this
  decide

end GrowthPolicy

end ModuleServices
