import LatchContracts.Templates.Vesting.Model
import LatchContracts.Lib.Share

/-!
# The vesting arithmetic is exact

`vestedAt` is the vesting curve over the integers: nothing before the start or
the cliff, the whole total from the end on, and the share of the elapsed time
between.

* `mulDivU128_exact` follows both paths of `mul_div_u128`.  The product that is
  cut into two words is put together again by `share_split`, and the bounds
  `elapsed ≤ duration < 2 ^ 32` and `total < 2 ^ 127` keep every intermediate
  value, and both shifts, in range.
* `SplitSteps` lists the words of the split path with what each is over the
  integers, and `PathsExact` says that the path taken computes the share.
* `computeVested_exact` says that `compute_vested` answers the curve, for every
  total that is not negative and every ledger, and `vesting_arithmetic_exact`
  spells that out with the path taken.
* `vestedAt_mono` says that the curve never goes down.
-/

namespace LatchContracts.Templates.Vesting

open LatchContracts.Lib

/-! ## The curve -/

/-- The amount vested at the ledger `now`. -/
def vestedAt (total : ℤ) (start : U32) (cliff : Option U32) (stop now : U32) : ℤ :=
  if now < start then 0
  else if ∃ c ∈ cliff, now < c then 0
  else if stop ≤ now then total
  else share total (now.val - start.val) (stop.val - start.val)

section Curve

variable {total : ℤ} {start : U32} {cliff : Option U32} {stop now later : U32}

theorem vestedAt_of_le (hstart : start < stop) (hcliff : ∀ c ∈ cliff, c ≤ stop) (h : stop ≤ now) :
    vestedAt total start cliff stop now = total := by
  have hnow : ¬ now < start := not_lt.mpr (hstart.le.trans h)
  have hafter : ¬ ∃ c ∈ cliff, now < c := by
    intro ⟨c, hc, hlt⟩
    exact absurd ((hcliff c hc).trans h) (not_le.mpr hlt)
  rw [vestedAt, if_neg hnow, if_neg hafter, if_pos h]

theorem vestedAt_nonneg (htotal : 0 ≤ total) : 0 ≤ vestedAt total start cliff stop now := by
  unfold vestedAt
  split
  · exact le_rfl
  · rename_i hstart
    split
    · exact le_rfl
    · split
      · exact htotal
      · rename_i hstop
        rw [Bounded.lt_def] at hstart
        rw [Bounded.le_def] at hstop
        exact share_nonneg htotal (by omega) (by omega)

theorem vestedAt_le (htotal : 0 ≤ total) : vestedAt total start cliff stop now ≤ total := by
  unfold vestedAt
  split
  · exact htotal
  · rename_i hstart
    split
    · exact htotal
    · split
      · exact le_rfl
      · rename_i hstop
        rw [Bounded.lt_def] at hstart
        rw [Bounded.le_def] at hstop
        exact share_le htotal (by omega) (by omega)

/-- Once the curve has left zero it is the share of the elapsed time, up to the
total. -/
theorem vestedAt_mono (htotal : 0 ≤ total) (h : now ≤ later) :
    vestedAt total start cliff stop now ≤ vestedAt total start cliff stop later := by
  by_cases hstart : now < start
  · have hzero : vestedAt total start cliff stop now = 0 := if_pos hstart
    rw [hzero]
    exact vestedAt_nonneg htotal
  by_cases hcliff : ∃ c ∈ cliff, now < c
  · have hzero : vestedAt total start cliff stop now = 0 := by
      rw [vestedAt, if_neg hstart, if_pos hcliff]
    rw [hzero]
    exact vestedAt_nonneg htotal
  have hstart' : ¬ later < start := fun hlt => hstart (h.trans_lt hlt)
  have hcliff' : ¬ ∃ c ∈ cliff, later < c := by
    intro ⟨c, hc, hlt⟩
    exact hcliff ⟨c, hc, h.trans_lt hlt⟩
  by_cases hstop : stop ≤ later
  · have htop : vestedAt total start cliff stop later = total := by
      rw [vestedAt, if_neg hstart', if_neg hcliff', if_pos hstop]
    rw [htop]
    exact vestedAt_le htotal
  · have hstop' : ¬ stop ≤ now := fun hle => hstop (hle.trans h)
    rw [vestedAt, if_neg hstart, if_neg hcliff, if_neg hstop', vestedAt, if_neg hstart',
      if_neg hcliff', if_neg hstop]
    rw [Bounded.lt_def] at hstart
    rw [Bounded.le_def] at hstop' h
    exact share_mono htotal (by omega) (by omega)

end Curve

/-! ## Both paths of the product -/

section MulDiv

variable {total elapsed duration : U128}

/-- The direct path. -/
theorem checkedDiv_share {prod : U128} (hprod : total.checkedMul elapsed = some prod)
    (hpos : 0 < duration.val) :
    ∃ v, prod.checkedDiv duration = some v ∧
      v.val = share total.val elapsed.val duration.val := by
  obtain ⟨v, hv, hval⟩ := Bounded.exists_checkedDiv (a := prod) hpos
  refine ⟨v, hv, ?_⟩
  rw [hval, Bounded.checkedMul_eq_some.mp hprod]
  rfl

/-- The high word of a total. -/
theorem val_highWord (total : U128) :
    (asU128 (asU64 (shiftRight64 total))).val = total.val / 2 ^ 64 := by
  have htotal : 0 ≤ total.val := total.lo_le
  have htotal' : total.val ≤ 2 ^ 128 - 1 := total.le_hi
  have hshift : (shiftRight64 total).val = total.val / 2 ^ 64 :=
    Bounded.val_ofInt_of_mem (by omega) (by omega)
  have hword : (asU64 (shiftRight64 total)).val = total.val / 2 ^ 64 := by
    rw [← hshift]
    exact Bounded.val_ofInt_of_mem (by omega) (by omega)
  rw [← hword]
  exact Bounded.val_ofInt_of_mem (by omega) (by omega)

/-- The low word of a total. -/
theorem val_lowWord (total : U128) : (asU128 (asU64 total)).val = total.val % 2 ^ 64 := by
  have hword : (asU64 total).val = total.val % 2 ^ 64 := by
    show 0 + (total.val - 0) % (2 ^ 64 - 1 - 0 + 1) = total.val % 2 ^ 64
    omega
  rw [← hword]
  exact Bounded.val_ofInt_of_mem (by omega) (by omega)

/-- A shift of one word loses no bit. -/
theorem val_shiftLeft64 {a : U128} (h : a.val < 2 ^ 64) : (shiftLeft64 a).val = a.val * 2 ^ 64 := by
  have ha : 0 ≤ a.val := a.lo_le
  exact Bounded.val_ofInt_of_mem (by omega) (by omega)

/-- A product of two factors with known bounds. -/
theorem checkedMul_le {a b : U128} {m n : ℤ} (ha : a.val ≤ m) (hb : b.val ≤ n)
    (hmn : m * n ≤ 2 ^ 128 - 1) :
    ∃ c, a.checkedMul b = some c ∧ c.val = a.val * b.val ∧ c.val ≤ m * n := by
  have hle : a.val * b.val ≤ m * n := Int.mul_le_mul ha hb b.lo_le (a.lo_le.trans ha)
  obtain ⟨c, hc, hval⟩ :=
    Bounded.exists_ofInt? (Int.mul_nonneg a.lo_le b.lo_le) (hle.trans hmn)
  exact ⟨c, hc, hval, hval.trans_le hle⟩

/-- The values that the path in two words goes through, when no step of it
overflows, divides by zero or shifts a bit out. -/
structure SplitSteps (total elapsed duration : U128) where
  hiProd : U128
  loProd : U128
  hiDiv : U128
  hiRem : U128
  loSum : U128
  loDiv : U128
  result : U128
  words : (asU128 (asU64 (shiftRight64 total))).val * 2 ^ 64 + (asU128 (asU64 total)).val =
    total.val
  hiProd_eq : (asU128 (asU64 (shiftRight64 total))).checkedMul elapsed = some hiProd
  loProd_eq : (asU128 (asU64 total)).checkedMul elapsed = some loProd
  hiDiv_eq : hiProd.checkedDiv duration = some hiDiv
  hiRem_eq : hiProd.checkedRem duration = some hiRem
  hiRem_shift : (shiftLeft64 hiRem).val = hiRem.val * 2 ^ 64
  loSum_eq : (shiftLeft64 hiRem).checkedAdd loProd = some loSum
  loDiv_eq : loSum.checkedDiv duration = some loDiv
  hiDiv_shift : (shiftLeft64 hiDiv).val = hiDiv.val * 2 ^ 64
  result_eq : (shiftLeft64 hiDiv).checkedAdd loDiv = some result

theorem SplitSteps.mulDivSplit_eq (steps : SplitSteps total elapsed duration) :
    mulDivSplit total elapsed duration = some steps.result := by
  simp only [mulDivSplit, steps.hiProd_eq, steps.loProd_eq, steps.hiDiv_eq, steps.hiRem_eq,
    steps.loSum_eq, steps.loDiv_eq, steps.result_eq, Option.bind_eq_bind, Option.bind_some]

/-- The path in two words. -/
theorem exists_splitSteps (htotal : total.val < 2 ^ 127) (hle : elapsed.val ≤ duration.val)
    (hpos : 0 < duration.val) (hduration : duration.val < 2 ^ 32) :
    ∃ steps : SplitSteps total elapsed duration,
      steps.result.val = share total.val elapsed.val duration.val := by
  have htotal0 : 0 ≤ total.val := total.lo_le
  have helapsed0 : 0 ≤ elapsed.val := elapsed.lo_le
  have hhi := val_highWord total
  have hlo := val_lowWord total
  set hi := asU128 (asU64 (shiftRight64 total)) with hhidef
  set lo := asU128 (asU64 total) with hlodef
  have hwords : hi.val * 2 ^ 64 + lo.val = total.val := by
    rw [hhi, hlo]
    exact Int.ediv_mul_add_emod _ _
  obtain ⟨hiProd, hhiProd, hhiProdVal, _⟩ :=
    checkedMul_le (show hi.val ≤ 2 ^ 63 by omega) (show elapsed.val ≤ 2 ^ 32 by omega) (by omega)
  obtain ⟨loProd, hloProd, hloProdVal, hloProdLe⟩ :=
    checkedMul_le (show lo.val ≤ 2 ^ 64 by omega) (show elapsed.val ≤ 2 ^ 32 by omega) (by omega)
  obtain ⟨hiDiv, hhiDiv, hhiDivVal⟩ := Bounded.exists_checkedDiv (a := hiProd) hpos
  obtain ⟨hiRem, hhiRem, hhiRemVal⟩ := Bounded.exists_checkedRem (a := hiProd) hpos
  have hhiDivLe : hiDiv.val ≤ hi.val := by
    rw [hhiDivVal, hhiProdVal]
    exact share_le hi.lo_le hpos hle
  have hhiRemLt : hiRem.val < 2 ^ 32 := by
    rw [hhiRemVal]
    exact (Int.emod_lt_of_pos _ hpos).trans hduration
  have hdivShift : (shiftLeft64 hiDiv).val = hiDiv.val * 2 ^ 64 := val_shiftLeft64 (by omega)
  have hremShift : (shiftLeft64 hiRem).val = hiRem.val * 2 ^ 64 := val_shiftLeft64 (by omega)
  have hrem0 : 0 ≤ hiRem.val := hiRem.lo_le
  have hprod0 : 0 ≤ loProd.val := loProd.lo_le
  obtain ⟨loSum, hloSum, hloSumVal⟩ : ∃ c, (shiftLeft64 hiRem).checkedAdd loProd = some c ∧
      c.val = (shiftLeft64 hiRem).val + loProd.val :=
    Bounded.exists_ofInt? (by omega) (by omega)
  obtain ⟨loDiv, hloDiv, hloDivVal⟩ := Bounded.exists_checkedDiv (a := loSum) hpos
  -- the two quotients add up to the share of the whole total
  have hshare : (shiftLeft64 hiDiv).val + loDiv.val =
      share total.val elapsed.val duration.val := by
    rw [← hwords, share_split _ _ _ _ hpos.ne', hdivShift, hhiDivVal, hloDivVal, hloSumVal,
      hremShift, hhiRemVal, hhiProdVal, hloProdVal]
  have hshareLe : share total.val elapsed.val duration.val ≤ total.val :=
    share_le htotal0 hpos hle
  have hshare0 : 0 ≤ share total.val elapsed.val duration.val :=
    share_nonneg htotal0 helapsed0 hpos.le
  obtain ⟨v, hv, hval⟩ : ∃ c, (shiftLeft64 hiDiv).checkedAdd loDiv = some c ∧
      c.val = (shiftLeft64 hiDiv).val + loDiv.val :=
    Bounded.exists_ofInt? (by omega) (by omega)
  refine ⟨⟨hiProd, loProd, hiDiv, hiRem, loSum, loDiv, v, hwords, hhiProd, hloProd, hhiDiv, hhiRem,
    hremShift, hloSum, hloDiv, hdivShift, hv⟩, ?_⟩
  exact hval.trans hshare

/-- `mul_div_u128` on a share of the time of a schedule: both paths answer the
result of the two words. -/
theorem mulDivU128_exact {elapsed duration : U64} (htotal : total.val < 2 ^ 127)
    (hle : elapsed.val ≤ duration.val) (hpos : 0 < duration.val)
    (hduration : duration.val < 2 ^ 32) :
    (asU128 elapsed).val = elapsed.val ∧ (asU128 duration).val = duration.val ∧
      ∃ steps : SplitSteps total (asU128 elapsed) (asU128 duration),
        mulDivU128 total elapsed duration = some steps.result ∧
          steps.result.val = share total.val elapsed.val duration.val := by
  have helapsed0 : 0 ≤ elapsed.val := elapsed.lo_le
  have helapsed : (asU128 elapsed).val = elapsed.val :=
    Bounded.val_ofInt_of_mem (by omega) (by omega)
  have hdur : (asU128 duration).val = duration.val :=
    Bounded.val_ofInt_of_mem (by omega) (by omega)
  refine ⟨helapsed, hdur, ?_⟩
  rw [← helapsed, ← hdur] at hle ⊢
  rw [← hdur] at hpos hduration
  obtain ⟨steps, hresult⟩ := exists_splitSteps htotal hle hpos hduration
  refine ⟨steps, ?_, hresult⟩
  unfold mulDivU128
  split
  · rename_i prod hprod
    obtain ⟨v, hv, hval⟩ := checkedDiv_share hprod hpos
    rw [hv, Bounded.ext (hval.trans hresult.symm)]
  · exact steps.mulDivSplit_eq

end MulDiv

/-! ## The vested amount -/

/-- The casts around `mul_div_u128` keep every value, its two-word path is exact
in every step, and `v` is what both paths answer. -/
structure PathsExact (totalAmount : I128) (elapsed duration : U32) (v : I128) : Prop where
  total_cast : (asU128 totalAmount).val = totalAmount.val
  elapsed_cast : (asU64 elapsed).val = elapsed.val ∧ (asU128 (asU64 elapsed)).val = elapsed.val
  duration_cast : (asU64 duration).val = duration.val ∧ (asU128 (asU64 duration)).val = duration.val
  paths : ∃ steps : SplitSteps (asU128 totalAmount) (asU128 (asU64 elapsed))
      (asU128 (asU64 duration)),
    mulDivSplit (asU128 totalAmount) (asU128 (asU64 elapsed)) (asU128 (asU64 duration)) =
        some steps.result ∧
      mulDivU128 (asU128 totalAmount) (asU64 elapsed) (asU64 duration) = some steps.result ∧
      v = asI128 steps.result ∧ v.val = steps.result.val
  exact : v.val = totalAmount.val * elapsed.val / duration.val

theorem exists_pathsExact {totalAmount : I128} (htotal : 0 ≤ totalAmount.val)
    {elapsed duration : U32} (hle : elapsed.val ≤ duration.val) (hpos : 0 < duration.val) :
    ∃ v, PathsExact totalAmount elapsed duration v := by
  have htotal' : totalAmount.val ≤ 2 ^ 127 - 1 := totalAmount.le_hi
  have helapsed0 : 0 ≤ elapsed.val := elapsed.lo_le
  have hduration' : duration.val ≤ 2 ^ 32 - 1 := duration.le_hi
  have htotalVal : (asU128 totalAmount).val = totalAmount.val :=
    Bounded.val_ofInt_of_mem (by omega) (by omega)
  have helapsed64 : (asU64 elapsed).val = elapsed.val :=
    Bounded.val_ofInt_of_mem (by omega) (by omega)
  have hduration64 : (asU64 duration).val = duration.val :=
    Bounded.val_ofInt_of_mem (by omega) (by omega)
  obtain ⟨helapsed128, hduration128, steps, hsteps, hresult⟩ :=
    mulDivU128_exact (show (asU128 totalAmount).val < 2 ^ 127 by omega)
      (show (asU64 elapsed).val ≤ (asU64 duration).val by omega)
      (show 0 < (asU64 duration).val by omega) (show (asU64 duration).val < 2 ^ 32 by omega)
  rw [htotalVal, helapsed64, hduration64] at hresult
  have hresultLe : steps.result.val ≤ totalAmount.val := by
    rw [hresult]
    exact share_le htotal hpos hle
  have hresult0 : 0 ≤ steps.result.val := steps.result.lo_le
  have hcast : (asI128 steps.result).val = steps.result.val :=
    Bounded.val_ofInt_of_mem (by omega) (by omega)
  exact ⟨asI128 steps.result,
    { total_cast := htotalVal
      elapsed_cast := ⟨helapsed64, helapsed128.trans helapsed64⟩
      duration_cast := ⟨hduration64, hduration128.trans hduration64⟩
      paths := ⟨steps, steps.mulDivSplit_eq, hsteps, rfl, hcast⟩
      exact := hcast.trans hresult }⟩

/-- Between the start and the end, past the cliff, `compute_vested` goes through
`mul_div_u128`. -/
theorem computeVested_between {totalAmount : I128} (htotal : 0 ≤ totalAmount.val)
    {startLedger endLedger currentLedger : U32} {cliffLedger : Option U32}
    (hstart : ¬ currentLedger < startLedger)
    (hcliff : ¬ ∃ cliff ∈ cliffLedger, currentLedger < cliff)
    (hend : ¬ endLedger ≤ currentLedger) :
    ∃ elapsed duration v, currentLedger.checkedSub startLedger = some elapsed ∧
      endLedger.checkedSub startLedger = some duration ∧
      computeVested totalAmount startLedger cliffLedger endLedger currentLedger = some v ∧
      PathsExact totalAmount elapsed duration v := by
  have hstart' : startLedger.val ≤ currentLedger.val := not_lt.mp hstart
  have hend' : currentLedger.val < endLedger.val := not_le.mp hend
  have hstart0 : 0 ≤ startLedger.val := startLedger.lo_le
  have hendTop : endLedger.val ≤ 2 ^ 32 - 1 := endLedger.le_hi
  obtain ⟨elapsed, helapsed, helapsedVal⟩ : ∃ c, currentLedger.checkedSub startLedger = some c ∧
      c.val = currentLedger.val - startLedger.val :=
    Bounded.exists_ofInt? (by omega) (by omega)
  obtain ⟨duration, hduration, hdurationVal⟩ : ∃ c, endLedger.checkedSub startLedger = some c ∧
      c.val = endLedger.val - startLedger.val :=
    Bounded.exists_ofInt? (by omega) (by omega)
  obtain ⟨v, hv⟩ := exists_pathsExact htotal (show elapsed.val ≤ duration.val by omega) (by omega)
  refine ⟨elapsed, duration, v, helapsed, hduration, ?_, hv⟩
  obtain ⟨steps, _, hsteps, hcast, _⟩ := hv.paths
  rw [computeVested, if_neg hstart, if_neg hcliff, if_neg hend]
  simp only [helapsed, hduration, hsteps, Option.bind_eq_bind, Option.bind_some, hcast]

/-- `compute_vested` answers the curve at every ledger. -/
theorem computeVested_exact {totalAmount : I128} (htotal : 0 ≤ totalAmount.val)
    (startLedger : U32) (cliffLedger : Option U32) (endLedger currentLedger : U32) :
    ∃ v, computeVested totalAmount startLedger cliffLedger endLedger currentLedger = some v ∧
      v.val = vestedAt totalAmount.val startLedger cliffLedger endLedger currentLedger := by
  by_cases hstart : currentLedger < startLedger
  · rw [computeVested, vestedAt, if_pos hstart, if_pos hstart]
    exact ⟨0, rfl, rfl⟩
  by_cases hcliff : ∃ cliff ∈ cliffLedger, currentLedger < cliff
  · rw [computeVested, vestedAt, if_neg hstart, if_neg hstart, if_pos hcliff, if_pos hcliff]
    exact ⟨0, rfl, rfl⟩
  by_cases hend : endLedger ≤ currentLedger
  · rw [computeVested, vestedAt, if_neg hstart, if_neg hstart, if_neg hcliff, if_neg hcliff,
      if_pos hend, if_pos hend]
    exact ⟨totalAmount, rfl, rfl⟩
  · obtain ⟨elapsed, duration, v, helapsed, hduration, hv, hpaths⟩ :=
      computeVested_between htotal hstart hcliff hend
    rw [vestedAt, if_neg hstart, if_neg hcliff, if_neg hend]
    refine ⟨v, hv, ?_⟩
    rw [hpaths.exact, Bounded.checkedSub_eq_some.mp helapsed,
      Bounded.checkedSub_eq_some.mp hduration]
    rfl

/-- For every schedule that the constructor accepts and every ledger,
`compute_vested` answers: nothing before the start or the cliff, the total from
the end on, and otherwise the floor of the proportional share, which both paths
of `mul_div_u128` compute with no step that loses anything. -/
theorem vesting_arithmetic_exact {totalAmount : I128} (htotal : 1 ≤ totalAmount.val)
    {startLedger endLedger : U32} (hrange : startLedger < endLedger) {cliffLedger : Option U32}
    (hcliff : ∀ cliff ∈ cliffLedger, startLedger ≤ cliff ∧ cliff ≤ endLedger)
    (currentLedger : U32) :
    ∃ v, computeVested totalAmount startLedger cliffLedger endLedger currentLedger = some v ∧
      ((currentLedger < startLedger ∨ ∃ cliff ∈ cliffLedger, currentLedger < cliff) → v.val = 0) ∧
      (endLedger ≤ currentLedger → v = totalAmount) ∧
      (startLedger ≤ currentLedger → (∀ cliff ∈ cliffLedger, cliff ≤ currentLedger) →
        currentLedger < endLedger →
          v.val = totalAmount.val * (currentLedger.val - startLedger.val) /
            (endLedger.val - startLedger.val) ∧
          ∃ elapsed duration, currentLedger.checkedSub startLedger = some elapsed ∧
            endLedger.checkedSub startLedger = some duration ∧
            PathsExact totalAmount elapsed duration v) := by
  have htotal0 : 0 ≤ totalAmount.val := by omega
  obtain ⟨v, hv, hval⟩ :=
    computeVested_exact htotal0 startLedger cliffLedger endLedger currentLedger
  refine ⟨v, hv, ?_, ?_, ?_⟩
  · intro hbefore
    rw [hval, vestedAt]
    by_cases hstart : currentLedger < startLedger
    · rw [if_pos hstart]
    · rw [if_neg hstart, if_pos (hbefore.resolve_left hstart)]
  · intro hend
    apply Bounded.ext
    rw [hval]
    exact vestedAt_of_le hrange (fun cliff hmem => (hcliff cliff hmem).2) hend
  · intro hstart hpast hend
    have hcliff' : ¬ ∃ cliff ∈ cliffLedger, currentLedger < cliff := by
      intro ⟨cliff, hmem, hlt⟩
      exact absurd (hpast cliff hmem) (not_le.mpr hlt)
    obtain ⟨elapsed, duration, v', helapsed, hduration, hv', hpaths⟩ :=
      computeVested_between htotal0 (not_lt.mpr hstart) hcliff' (not_le.mpr hend)
    obtain rfl : v = v' := Option.some.inj (hv.symm.trans hv')
    refine ⟨?_, elapsed, duration, helapsed, hduration, hpaths⟩
    rw [hpaths.exact, Bounded.checkedSub_eq_some.mp helapsed,
      Bounded.checkedSub_eq_some.mp hduration]

/-- `i128::MAX`, whose product with the elapsed time leaves the type of the direct
path. -/
theorem vesting_arithmetic_exact_sample :
    ∃ v, computeVested 170141183460469231731687303715884105727 10 (some 11) 4000000000
        2000000005 = some v ∧
      v.val = (2 ^ 127 - 1) * 1999999995 / 3999999990 := by
  have htotal : 1 ≤ (170141183460469231731687303715884105727 : I128).val := by decide
  have hrange : (10 : U32) < 4000000000 := by decide
  have hcliff : ∀ cliff ∈ some (11 : U32), 10 ≤ cliff ∧ cliff ≤ 4000000000 := by
    intro cliff hmem
    cases hmem
    decide
  obtain ⟨v, hv, _, _, hbetween⟩ :=
    vesting_arithmetic_exact htotal hrange hcliff 2000000005
  refine ⟨v, hv, (hbetween (by decide) ?_ (by decide)).1⟩
  intro cliff hmem
  cases hmem
  decide

end LatchContracts.Templates.Vesting
