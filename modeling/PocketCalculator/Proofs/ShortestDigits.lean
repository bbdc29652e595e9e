import PocketCalculator.Proofs.ShortestDecimal

/-!
How short the shortest decimal is. A grid of tens with any decimal that reads back has one next to
the exact value, and the grids are tried from the coarsest down. So no decimal that reads back has
a larger exponent than the shortest one, and the shortest one does not end in a zero.
-/

namespace PocketCalculator.Proofs.ShortestDigits

open PocketCalculator.Binary64
open PocketCalculator.Decimal
open PocketCalculator.Proofs.NearestMagnitude
open PocketCalculator.Proofs.ShortestDecimal

/-- The grid of an exponent of ten has steps of `step / parts` units. -/
def step (exponent : Int) : Nat := 10 ^ exponent.toNat * one

def parts (exponent : Int) : Nat := 10 ^ (-exponent).toNat

/-- Whether the decimal `n * 10 ^ exponent` reads back to the magnitude `b`. -/
def ReadsBack (b n : Nat) (exponent : Int) : Prop :=
  IsNearest b (n * step exponent) (parts exponent)

theorem step_pos (exponent : Int) : 0 < step exponent :=
  Nat.mul_pos (Nat.pow_pos (by decide)) pos_one

theorem parts_pos (exponent : Int) : 0 < parts exponent :=
  Nat.pow_pos (by decide)

theorem step_add (exponent : Int) (j : Nat) :
    step (exponent + j) * parts exponent = 10 ^ j * step exponent * parts (exponent + j) := by
  have hpow : 10 ^ (exponent + j).toNat * 10 ^ (-exponent).toNat =
      10 ^ j * 10 ^ exponent.toNat * 10 ^ (-(exponent + j)).toNat := by
    rw [← Nat.pow_add, ← Nat.pow_add, ← Nat.pow_add]
    congr 1
    omega
  calc step (exponent + j) * parts exponent
      = 10 ^ (exponent + j).toNat * 10 ^ (-exponent).toNat * one := Nat.mul_right_comm ..
    _ = 10 ^ j * step exponent * parts (exponent + j) := by
      rw [hpow, step, parts]
      ring

theorem readsBack_of {b : Nat} {d : Scaled} (h : ReadsBack b d.digits d.exponent) :
    readsBack b d = true := by
  have hlow := h.low
  have hhigh := h.high
  have hvalue : 2 * d.digits * Nat.pow 10 d.exponent.toNat * one =
      2 * (d.digits * step d.exponent) := by
    rw [step, Nat.pow_eq, Nat.mul_assoc, Nat.mul_assoc]
  unfold readsBack
  dsimp only
  rw [hvalue, Nat.pow_eq, ← parts]
  split <;> simp only [Bool.and_eq_true, decide_eq_true_eq] <;> omega

theorem onGrid?_exponent {b : Nat} {exponent : Int} {d : Scaled}
    (h : onGrid? b exponent = some d) : d.exponent = exponent := by
  unfold onGrid? at h
  dsimp only at h
  split at h
  · split at h <;> cases h <;> rfl
  · cases h
    rfl
  · cases h
    rfl
  · cases h

theorem exists_onGrid? {b n : Nat} {exponent : Int} (h : ReadsBack b n exponent) :
    ∃ d, onGrid? b exponent = some d := by
  have hexact := isNearest_unitsOf b (parts_pos exponent)
  have hsplit := Nat.div_add_mod (unitsOf b * parts exponent) (step exponent)
  have hrest := Nat.mod_lt (unitsOf b * parts exponent) (step_pos exponent)
  have hnext : ReadsBack b (unitsOf b * parts exponent / step exponent) exponent ∨
      ReadsBack b (unitsOf b * parts exponent / step exponent + 1) exponent := by
    rcases Nat.lt_or_ge (unitsOf b * parts exponent / step exponent) n with hlt | hge
    · refine Or.inr (hexact.between h ?_ (Nat.mul_le_mul_right _ hlt))
      linarith
    · exact Or.inl (IsNearest.between h hexact (Nat.mul_le_mul_right _ hge)
        (Nat.div_mul_le_self ..))
  unfold onGrid?
  dsimp only
  split
  · exact ⟨_, rfl⟩
  · exact ⟨_, rfl⟩
  · exact ⟨_, rfl⟩
  · rename_i hdown hup
    rcases hnext with h' | h'
    · exact absurd (hdown.symm.trans (readsBack_of h')) Bool.false_ne_true
    · exact absurd (hup.symm.trans (readsBack_of h')) Bool.false_ne_true

section

-- The logarithm of two lies between `p / (w + 1)` and `p / w` of that of ten.
variable {w p k l c g : Nat}

theorem two_pow_lt_ten_pow (hone : 10 ^ (c + 1) ≤ one) (hw : 2 ^ w ≤ 10 ^ p)
    (hk : p * l < w * (k + 1)) : 2 ^ l * 10 ^ c < 10 ^ k * one := by
  refine lt_of_pow_lt_pow_left₀ w (Nat.zero_le _) ?_
  calc (2 ^ l * 10 ^ c) ^ w = (2 ^ w) ^ l * (10 ^ c) ^ w := by
        rw [Nat.mul_pow, ← Nat.pow_mul 2 l, ← Nat.pow_mul 2 w, Nat.mul_comm l]
    _ ≤ 10 ^ (p * l) * (10 ^ c) ^ w := by
        rw [Nat.pow_mul]
        exact Nat.mul_le_mul_right _ (Nat.pow_le_pow_left hw l)
    _ < 10 ^ (w * (k + 1)) * (10 ^ c) ^ w :=
        Nat.mul_lt_mul_of_pos_right (Nat.pow_lt_pow_right (by decide) hk)
          (Nat.pow_pos (Nat.pow_pos (by decide)))
    _ = (10 ^ k * 10 ^ (c + 1)) ^ w := by
        rw [Nat.mul_comm w, Nat.pow_mul, ← Nat.mul_pow, ← Nat.pow_add, ← Nat.pow_add,
          Nat.add_right_comm, Nat.add_assoc k]
    _ ≤ (10 ^ k * one) ^ w := Nat.pow_le_pow_left (Nat.mul_le_mul_left _ hone) w

theorem ten_pow_le_two_pow (hg : 2 * g ≤ 10 ^ c) (hw : 10 ^ p ≤ 2 ^ (w + 1))
    (hk : w * k ≤ p * l) (hl : l ≤ w) (hpos : w ≠ 0) : 10 ^ k * g ≤ 2 ^ l * 10 ^ c := by
  have hpow : 10 ^ (p * l) ≤ (2 ^ l) ^ w * 2 ^ l := by
    calc 10 ^ (p * l) = (10 ^ p) ^ l := Nat.pow_mul ..
      _ ≤ (2 ^ (w + 1)) ^ l := Nat.pow_le_pow_left hw l
      _ = (2 ^ l) ^ w * 2 ^ l := by rw [← Nat.pow_mul, Nat.mul_comm, Nat.pow_mul, Nat.pow_succ]
  refine le_of_pow_le_pow_left₀ hpos (Nat.zero_le _) ?_
  calc (10 ^ k * g) ^ w = 10 ^ (w * k) * g ^ w := by
        rw [Nat.mul_pow, ← Nat.pow_mul, Nat.mul_comm k]
    _ ≤ 10 ^ (p * l) * g ^ w := Nat.mul_le_mul_right _ (Nat.pow_le_pow_right (by decide) hk)
    _ ≤ (2 ^ l) ^ w * 2 ^ l * g ^ w := Nat.mul_le_mul_right _ hpow
    _ ≤ (2 ^ l) ^ w * 2 ^ w * g ^ w :=
        Nat.mul_le_mul_right _ (Nat.mul_le_mul_left _ (Nat.pow_le_pow_right Nat.two_pos hl))
    _ = (2 ^ l * (2 * g)) ^ w := by rw [Nat.mul_pow, Nat.mul_pow, Nat.mul_assoc]
    _ ≤ (2 ^ l * 10 ^ c) ^ w := Nat.pow_le_pow_left (Nat.mul_le_mul_left _ hg) w

theorem ten_pow_mul_parts {exponent : Int} (h : exponent + c = k) :
    10 ^ k * one * parts exponent = 10 ^ c * step exponent := by
  have hpow : 10 ^ k * 10 ^ (-exponent).toNat = 10 ^ c * 10 ^ exponent.toNat := by
    rw [← Nat.pow_add, ← Nat.pow_add]
    congr 1
    omega
  rw [Nat.mul_right_comm, parts, hpow, step, Nat.mul_assoc]

theorem lt_step {exponent : Int} (hexp : exponent + c = k) (h : l * 10 ^ c < 10 ^ k * one) :
    l * parts exponent < step exponent := by
  refine Nat.lt_of_mul_lt_mul_left (a := 10 ^ c) ?_
  rw [← ten_pow_mul_parts hexp, ← Nat.mul_assoc, Nat.mul_comm _ l]
  exact Nat.mul_lt_mul_of_pos_right h (parts_pos exponent)

theorem step_le {exponent : Int} (hexp : exponent + c = k)
    (h : 10 ^ k * (one * g) ≤ l * 10 ^ c) : g * step exponent ≤ l * parts exponent := by
  refine Nat.le_of_mul_le_mul_left ?_ (Nat.pow_pos (by decide) : 0 < 10 ^ c)
  calc 10 ^ c * (g * step exponent) = g * (10 ^ k * one * parts exponent) := by
        rw [ten_pow_mul_parts hexp, Nat.mul_left_comm]
    _ = 10 ^ k * (one * g) * parts exponent := by ring
    _ ≤ l * 10 ^ c * parts exponent := Nat.mul_le_mul_right _ h
    _ = 10 ^ c * (l * parts exponent) := by ring

end

theorem units_lt_step (b : Nat) :
    unitsOf b * parts (leadingExponent (unitsOf b)) < step (leadingExponent (unitsOf b)) := by
  have hpow : 2 ^ ((unitsOf b).log2 + 1) * 10 ^ 322 <
      10 ^ (((unitsOf b).log2 + 1) * 30103 / 100000) * one :=
    two_pow_lt_ten_pow (w := 100000) (p := 30103) (by decide +kernel) (by decide +kernel)
      (by omega)
  exact (Nat.mul_le_mul_right _ Nat.lt_log2_self.le).trans_lt
    (lt_step (by rw [leadingExponent]; omega) hpow)

theorem step_finest_le {b : Nat} (hb : 0 < b) (hfinite : b < infinite) :
    2 ^ 57 * step (leadingExponent (unitsOf b) - 21) ≤
      2 ^ ((unitsOf b).log2 + 1) * parts (leadingExponent (unitsOf b) - 21) := by
  have hlog := log2_unitsOf_lt hb hfinite
  have hpow : 10 ^ (((unitsOf b).log2 + 1) * 30103 / 100000) * (one * 2 ^ 57) ≤
      2 ^ ((unitsOf b).log2 + 1) * 10 ^ 343 :=
    ten_pow_le_two_pow (w := 100000) (p := 30103) (by decide +kernel) (by decide +kernel)
      (by omega) (by omega) (by decide)
  exact step_le (by rw [leadingExponent]; omega) hpow

theorem exponent_le_top {b n : Nat} {exponent : Int} (hb : 0 < b) (h : ReadsBack b n exponent) :
    exponent ≤ leadingExponent (unitsOf b) := by
  by_contra! hlt
  obtain ⟨j, hj⟩ : ∃ j : Nat, exponent = leadingExponent (unitsOf b) + (j + 1 : Nat) :=
    ⟨(exponent - leadingExponent (unitsOf b) - 1).toNat, by omega⟩
  have hunits : 0 < unitsOf b := Nat.pos_of_ne_zero (mt unitsOf_eq_zero_iff.mp hb.ne')
  have hparts := parts_pos exponent
  have hlow := h.low
  have hhigh := h.high
  rw [Nat.add_mul] at hlow hhigh
  have hn : 1 ≤ n := by
    by_contra! hzero
    obtain rfl : n = 0 := by omega
    have hpos := Nat.mul_pos hunits hparts
    omega
  have hstep : 2 * step exponent ≤ 3 * (unitsOf b * parts exponent) := by
    have hdouble := Nat.mul_le_mul_right (parts exponent) (unitsOf_succ_le_double hb)
    have hmul := Nat.mul_le_mul_right (step exponent) hn
    rw [Nat.mul_assoc] at hdouble
    omega
  have htop := Nat.mul_lt_mul_of_pos_right (units_lt_step b) hparts
  have hgrid := step_add (leadingExponent (unitsOf b)) (j + 1)
  rw [← hj] at hgrid
  have hten : 10 * (step (leadingExponent (unitsOf b)) * parts exponent) ≤
      10 ^ (j + 1) * step (leadingExponent (unitsOf b)) * parts exponent := by
    rw [Nat.mul_assoc]
    exact Nat.mul_le_mul_right _ (Nat.le_self_pow (by omega) 10)
  have hwide := Nat.mul_le_mul_right (parts (leadingExponent (unitsOf b))) hstep
  linarith [Nat.zero_le (step (leadingExponent (unitsOf b)) * parts exponent)]

/-- Where a step is less than the distance between the midpoints, one of the two multiples around
the value reads back. -/
theorem exists_readsBack_of_step_lt {b : Nat} {exponent : Int}
    (h : unitsOf (b - 1) * parts exponent + 2 * step exponent <
      unitsOf (b + 1) * parts exponent) : ∃ n, ReadsBack b n exponent := by
  have hexact := isNearest_unitsOf b (parts_pos exponent)
  have hlow := hexact.low
  have hhigh := hexact.high
  have hsplit := Nat.div_add_mod (unitsOf b * parts exponent) (step exponent)
  have hrest := Nat.mod_lt (unitsOf b * parts exponent) (step_pos exponent)
  have hbelow := Nat.div_mul_le_self (unitsOf b * parts exponent) (step exponent)
  have hnext : unitsOf b * parts exponent <
      (unitsOf b * parts exponent / step exponent + 1) * step exponent := by
    rw [Nat.add_one_mul, Nat.mul_comm _ (step exponent)]
    omega
  have hadd := Nat.add_one_mul (unitsOf b * parts exponent / step exponent) (step exponent)
  have hparity : b % 2 ≤ 1 := Nat.le_of_lt_succ (Nat.mod_lt b Nat.two_pos)
  by_cases hdown : (unitsOf (b - 1) + unitsOf b) * parts exponent + b % 2 ≤
      2 * (unitsOf b * parts exponent / step exponent * step exponent)
  · exact ⟨_, hdown, by omega⟩
  · refine ⟨unitsOf b * parts exponent / step exponent + 1, by omega, ?_⟩
    rw [Nat.add_mul] at hdown
    rw [Nat.add_mul (unitsOf b)]
    omega

theorem exists_readsBack_finest {b : Nat} (hb : 0 < b) (hfinite : b < infinite) :
    ∃ n, ReadsBack b n (leadingExponent (unitsOf b) - 21) := by
  have hgap := two_pow_log2_le_sub hb
  have hfine := step_finest_le hb hfinite
  generalize leadingExponent (unitsOf b) - 21 = exponent at hfine ⊢
  have hstep := step_pos exponent
  have hmul := Nat.mul_le_mul_right (parts exponent) hgap
  have hup := Nat.mul_le_mul_right (parts exponent) (unitsOf_lt_iff.mpr b.lt_succ_self).le
  exact exists_readsBack_of_step_lt (by linarith)

theorem exponent_le_findSome? {b n : Nat} {exponent : Int} {grids : List Int} {d : Scaled}
    (hgrids : grids.Pairwise (· > ·)) (hfound : grids.findSome? (onGrid? b) = some d)
    (hmem : exponent ∈ grids) (h : ReadsBack b n exponent) : exponent ≤ d.exponent := by
  obtain ⟨before, hit, after, rfl, hhit, hmiss⟩ := List.findSome?_eq_some_iff.mp hfound
  rw [onGrid?_exponent hhit]
  rcases List.mem_append.mp hmem with hbefore | hrest
  · obtain ⟨d', hd'⟩ := exists_onGrid? h
    rw [hmiss exponent hbefore] at hd'
    cases hd'
  · rcases List.mem_cons.mp hrest with rfl | hafter
    · exact le_rfl
    · have hdown := (List.pairwise_cons.mp (List.pairwise_append.mp hgrids).2.1).1
      exact (hdown exponent hafter).le

/-- Of all decimals that read back none has a larger exponent than the shortest. -/
theorem exponent_le_shortest {b n : Nat} {exponent : Int} (hb : 0 < b) (hfinite : b < infinite)
    (h : ReadsBack b n exponent) : exponent ≤ (shortest b).exponent := by
  have htop := exponent_le_top hb h
  obtain ⟨m, hfinest⟩ := exists_readsBack_finest hb hfinite
  have hgrids : ((List.range 22).map fun k : Nat =>
      leadingExponent (unitsOf b) - (k : Int)).Pairwise (· > ·) :=
    List.pairwise_lt_range.map _ fun i j hlt => by omega
  have hmem {e : Int} (hlow : leadingExponent (unitsOf b) - 21 ≤ e)
      (hhigh : e ≤ leadingExponent (unitsOf b)) :
      e ∈ (List.range 22).map fun k : Nat => leadingExponent (unitsOf b) - (k : Int) :=
    List.mem_map.mpr ⟨(leadingExponent (unitsOf b) - e).toNat,
      List.mem_range.mpr (by omega), by omega⟩
  unfold shortest
  dsimp only
  cases hfound : ((List.range 22).map fun k : Nat =>
      leadingExponent (unitsOf b) - (k : Int)).findSome? (onGrid? b) with
  | none =>
      obtain ⟨d, hd⟩ := exists_onGrid? hfinest
      have hnone := List.findSome?_eq_none_iff.mp hfound _ (hmem le_rfl (by omega))
      rw [hd] at hnone
      cases hnone
  | some d =>
      rw [Option.getD_some]
      rcases Int.lt_or_le exponent (leadingExponent (unitsOf b) - 21) with hbelow | hwithin
      · exact hbelow.le.trans
          (exponent_le_findSome? hgrids hfound (hmem le_rfl (by omega)) hfinest)
      · exact exponent_le_findSome? hgrids hfound (hmem hwithin htop) h

theorem readsBack_shortest (b : Nat) :
    ReadsBack b (shortest b).digits (shortest b).exponent := by
  rw [ReadsBack, step, ← Nat.mul_assoc]
  exact isNearest_shortest b

theorem ReadsBack.of_ten_mul {b n : Nat} {exponent : Int} (h : ReadsBack b (10 * n) exponent) :
    ReadsBack b n (exponent + 1) := by
  have hgrid : step (exponent + 1) * parts exponent =
      10 ^ 1 * step exponent * parts (exponent + 1) := step_add exponent 1
  refine IsNearest.congr (parts_pos _) (parts_pos _) ?_ h
  calc 10 * n * step exponent * parts (exponent + 1)
      = n * (10 ^ 1 * step exponent * parts (exponent + 1)) := by ring
    _ = n * step (exponent + 1) * parts exponent := by rw [← hgrid, Nat.mul_assoc]

theorem shortest_digits_mod_ten {b : Nat} (hb : 0 < b) (hfinite : b < infinite) :
    (shortest b).digits % 10 ≠ 0 := by
  intro hzero
  obtain ⟨n, hn⟩ := Nat.dvd_of_mod_eq_zero hzero
  have h := readsBack_shortest b
  rw [hn] at h
  have hle := exponent_le_shortest hb hfinite h.of_ten_mul
  omega

end PocketCalculator.Proofs.ShortestDigits
