import LlmGateway.Eviction.Soundness

/-!
# Margins of ordinary size

The planner and the check round differently, and a plan can fall short of the check by what the two
roundings differ. That is less than one megabyte as long as the numbers are of ordinary size: with
percentages that are not negative and any headroom at all, the planner's margins cover those of the check
(`marginsCover_of_headroom`), and every plan is sound. The defaults are such margins (`sound_of_defaults`).
-/

namespace LlmGateway.Eviction

open Binary64

variable {margins : Margins} {v r t n : ℤ} {p q : ℚ} {pct : Number}

/-! ## Percentages in exact numbers -/

theorem scale_finite (hn : 0 ≤ n) (hn' : n ≤ 2 ^ 30) (hq : 0 ≤ q) (hq' : q ≤ 2 ^ 16) :
    scale n (.finite q) = .ok ⌊nearest (n * q)⌋ := by
  obtain ⟨m, rfl⟩ := Int.eq_ofNat_of_zero_le hn
  have hm : m ≤ 2 ^ 30 := by exact_mod_cast hn'
  have hm' : (m : ℚ) ≤ 2 ^ 30 := by exact_mod_cast hm
  have hfloat : (Number.int m).toFloat = .ok (.finite m) := by
    rw [Number.toFloat, Int.cast_natCast, ofRatOrRaise_eq_ok (Nat.cast_nonneg m) (by linarith),
      nearest_natCast (by omega)]
  have hprod : (m : ℚ) * q ≤ 2 ^ 52 := by
    calc (m : ℚ) * q ≤ 2 ^ 30 * 2 ^ 16 := by gcongr
      _ ≤ 2 ^ 52 := by norm_num
  have hnonneg : 0 ≤ (m : ℚ) * q := by positivity
  rw [scale, bind_eq_ok]
  refine ⟨_, hfloat, ?_⟩
  rw [finite_mul_finite hnonneg hprod, toInt_finite (nearest_nonneg hnonneg), Int.cast_natCast]

/-- A percentage as the fraction that it stands for, rounded. -/
def share (p : ℚ) : ℚ := nearest (p / 100)

theorem share_nonneg (hp : 0 ≤ p) : 0 ≤ share p := nearest_nonneg (by positivity)

theorem share_le (hp : 0 ≤ p) (hp' : p ≤ 2 ^ 20) : share p ≤ 2 ^ 14 := by
  have hle : nearest (p / 100) ≤ (2 ^ 14 : ℕ) := by
    refine nearest_le_natCast (by positivity) ?_ (by norm_num)
    rw [div_le_iff₀ (by norm_num)]
    push_cast
    linarith
  exact_mod_cast hle

theorem share_mono (hp : 0 ≤ p) (h : p ≤ q) : share p ≤ share q :=
  nearest_mono (by positivity) (by gcongr)

theorem divInt_eq_share (h : pct.value? = some p) (hp : 0 ≤ p) (hp' : p ≤ 2 ^ 20) :
    pct.divInt 100 = .ok (.finite (share p)) := by
  have hpos : 0 ≤ p / (100 : ℤ) := by positivity
  have hle : p / (100 : ℤ) ≤ 2 ^ 52 := by
    rw [div_le_iff₀ (by norm_num)]
    push_cast
    linarith
  have hdiv := Number.divInt_of_value h hpos hle
  rwa [Int.cast_ofNat] at hdiv

theorem percentOf_eq (h : pct.value? = some p) (hp : 0 ≤ p) (hp' : p ≤ 2 ^ 20) (hn : 0 ≤ n)
    (hn' : n ≤ 2 ^ 30) : percentOf n pct = .ok ⌊nearest (n * share p)⌋ := by
  rw [percentOf, bind_eq_ok]
  refine ⟨_, divInt_eq_share h hp hp', ?_⟩
  have hle := share_le hp hp'
  exact scale_finite hn hn' (share_nonneg hp) (by linarith)

/-- The factor `1.0 + pct / 100`. -/
def factor (p : ℚ) : ℚ := nearest (1 + share p)

theorem one_le_factor (hp : 0 ≤ p) : 1 ≤ factor p := by
  have hle : ((1 : ℕ) : ℚ) ≤ nearest (1 + share p) := by
    refine natCast_le_nearest ?_ (by norm_num)
    have := share_nonneg hp
    push_cast
    linarith
  exact_mod_cast hle

theorem factor_le (hp : 0 ≤ p) (hp' : p ≤ 2 ^ 20) : factor p ≤ 2 ^ 15 := by
  have hshare := share_nonneg hp
  have hle : nearest (1 + share p) ≤ (2 ^ 15 : ℕ) := by
    refine nearest_le_natCast (by linarith) ?_ (by norm_num)
    have := share_le hp hp'
    push_cast
    linarith
  exact_mod_cast hle

theorem factor_mono (hp : 0 ≤ p) (h : p ≤ q) : factor p ≤ factor q := by
  have hshare := share_nonneg hp
  have hle := share_mono hp h
  exact nearest_mono (by linarith) (by linarith)

theorem markUp_eq (h : pct.value? = some p) (hp : 0 ≤ p) (hp' : p ≤ 2 ^ 20) (hn : 0 ≤ n)
    (hn' : n ≤ 2 ^ 30) : markUp n pct = .ok ⌊nearest (n * factor p)⌋ := by
  have hshare := share_nonneg hp
  have hle := share_le hp hp'
  rw [markUp, bind_eq_ok]
  refine ⟨_, divInt_eq_share h hp hp', ?_⟩
  rw [finite_add_finite (by linarith) (by linarith)]
  show scale n (.finite (factor p)) = _
  have hfactor := factor_le hp hp'
  exact scale_finite hn hn' (zero_le_one.trans (one_le_factor hp)) (by linarith)

/-! ## The two roundings -/

theorem le_floor_markUp (hp : 0 ≤ p) (hn : 0 ≤ n) (hn' : n ≤ 2 ^ 30) :
    n ≤ ⌊nearest (n * factor p)⌋ := by
  obtain ⟨m, rfl⟩ := Int.eq_ofNat_of_zero_le hn
  have hm : m ≤ 2 ^ 30 := by exact_mod_cast hn'
  have hone := one_le_factor hp
  rw [Int.le_floor, Int.cast_natCast]
  refine natCast_le_nearest ?_ (by omega)
  exact le_mul_of_one_le_right (Nat.cast_nonneg m) hone

theorem floor_markUp_mono (hn : 0 ≤ n) (hp : 0 ≤ p) (h : p ≤ q) :
    ⌊nearest (n * factor p)⌋ ≤ ⌊nearest (n * factor q)⌋ := by
  have hn' : (0 : ℚ) ≤ n := by exact_mod_cast hn
  have hfactor := factor_mono hp h
  have hone := one_le_factor hp
  refine Int.floor_mono (nearest_mono (by positivity) ?_)
  gcongr

/-- **The percentage of the check is at most one more than the percentage that the planner adds.** -/
theorem floor_percentOf_le (hn : 0 ≤ n) (hn' : n ≤ 2 ^ 30) (hp : 0 ≤ p) (h : p ≤ q) (hq : q ≤ 2 ^ 20) :
    ⌊nearest (n * share p)⌋ ≤ ⌊nearest (n * factor q)⌋ - n + 1 := by
  have hnq : (0 : ℚ) ≤ n := by exact_mod_cast hn
  have hnq' : (n : ℚ) ≤ 2 ^ 30 := by exact_mod_cast hn'
  have hmono := share_mono hp h
  have hpos := share_nonneg hp
  have hle := share_le (hp.trans h) hq
  have hfactor := factor_le (hp.trans h) hq
  have hone := one_le_factor (hp.trans h)
  -- each of the three roundings moves the result by at most 2 ^ -7
  have hsum : |factor q - (1 + share q)| ≤ 2 ^ (15 - 52 : ℤ) :=
    abs_nearest_sub_le_zpow (by linarith) (by norm_num; linarith) (by norm_num)
  have hmark : |nearest (n * factor q) - n * factor q| ≤ 2 ^ (45 - 52 : ℤ) := by
    refine abs_nearest_sub_le_zpow (by positivity) ?_ (by norm_num)
    calc (n : ℚ) * factor q ≤ 2 ^ 30 * 2 ^ 15 := by gcongr
      _ = 2 ^ (45 : ℤ) := by norm_num
  have hpart : |nearest (n * share p) - n * share p| ≤ 2 ^ (45 - 52 : ℤ) := by
    refine abs_nearest_sub_le_zpow (by positivity) ?_ (by norm_num)
    calc (n : ℚ) * share p ≤ 2 ^ 30 * 2 ^ 15 := by
          gcongr
          linarith
      _ = 2 ^ (45 : ℤ) := by norm_num
  have hscaled : n * (1 + share q) - n * factor q ≤ 2 ^ (-7 : ℤ) := by
    have hgap : 1 + share q - factor q ≤ 2 ^ (15 - 52 : ℤ) := by
      rw [abs_le] at hsum
      linarith [hsum.1]
    calc n * (1 + share q) - n * factor q = n * (1 + share q - factor q) := by ring
      _ ≤ n * 2 ^ (15 - 52 : ℤ) := mul_le_mul_of_nonneg_left hgap hnq
      _ ≤ 2 ^ 30 * 2 ^ (15 - 52 : ℤ) := by gcongr
      _ = 2 ^ (-7 : ℤ) := by norm_num
  have hle' : n * share p ≤ n * share q := by gcongr
  have hexact : nearest (n * share p) ≤ nearest (n * factor q) - n + 1 := by
    rw [abs_le] at hmark hpart
    norm_num at hmark hpart hscaled
    linarith [hmark.1, hpart.2]
  have hfloor := Int.floor_mono hexact
  rwa [Int.floor_add_one, Int.floor_sub_intCast] at hfloor

/-! ## Ordinary margins -/

theorem exists_nonreclaimableOverheadMb (ht : t ≤ 2 ^ 30) : ∃ n, nonreclaimableOverheadMb t = .ok n := by
  rw [nonreclaimableOverheadMb, reserveMb]
  split_ifs with hpos
  · exact ⟨512, rfl⟩
  · have hratio : nearest (2 / 100) ≤ (1 : ℕ) := nearest_le_natCast (by norm_num) (by norm_num) (by norm_num)
    have hscale := scale_finite (not_le.1 hpos).le ht (nearest_nonneg (by norm_num : (0 : ℚ) ≤ 2 / 100))
      (hratio.trans (by norm_num))
    rw [← ofRat_eq_finite (by norm_num) (by norm_num)] at hscale
    exact ⟨_, bind_eq_ok.2 ⟨_, hscale, rfl⟩⟩

/-- **Margins with any headroom at all cover the check**, for percentages that are not negative and numbers
of ordinary size. -/
theorem marginsCover_of_headroom {headroom cap : ℤ} (hvram : margins.vramMarginPct.value? = some p)
    (hp : 0 ≤ p) (hp' : p ≤ 2 ^ 20) (hram : margins.ramMarginPct.value? = some q) (hq : 0 ≤ q)
    (hq' : q ≤ 2 ^ 20) (hheadroom : margins.vramHeadroomMb = .ok headroom) (hpos : 1 ≤ headroom)
    (hcap : margins.vramMarginCapMb = .ok cap) (hv : 0 ≤ v) (hv' : v ≤ 2 ^ 30) (hr : 0 ≤ r)
    (hr' : r ≤ 2 ^ 30) (ht : t ≤ 2 ^ 30) : MarginsCover margins v r t := by
  have hfloor : (0 : ℚ) ≤ ⌊p⌋ := by exact_mod_cast Int.floor_nonneg.2 hp
  have hfloorLe : (⌊p⌋ : ℚ) ≤ p := Int.floor_le p
  have hramFloor : (0 : ℚ) ≤ ⌊q⌋ := by exact_mod_cast Int.floor_nonneg.2 hq
  have hramFloorLe : (⌊q⌋ : ℚ) ≤ q := Int.floor_le q
  have hpct : (Number.int ⌊p⌋).value? = some (⌊p⌋ : ℚ) := rfl
  have hramPct : (Number.int ⌊q⌋).value? = some (⌊q⌋ : ℚ) := rfl
  rintro headroom' vramPct ramPct ⟨hheadroom', hvramPct, hramUp, -, -⟩
  obtain rfl := Except.ok.inj (hheadroom.symm.trans hheadroom')
  rw [markUp_eq hvram hp hp' hv hv'] at hvramPct
  rw [markUp_eq hram hq hq' hr hr'] at hramUp
  obtain rfl := Except.ok.inj hvramPct
  obtain rfl := Except.ok.inj hramUp
  refine ⟨cap, _, _, ⟨hheadroom, hcap,
    ⟨⌊p⌋, _, Number.toInt_of_value hvram hp,
      percentOf_eq hpct hfloor (hfloorLe.trans hp') hv hv', markUp_eq hpct hfloor (hfloorLe.trans hp') hv hv'⟩,
    ⟨⌊q⌋, Number.toInt_of_value hram hq, markUp_eq hramPct hramFloor (hramFloorLe.trans hq') hr hr'⟩,
    exists_nonreclaimableOverheadMb ht⟩, fun _ => ?_, fun _ => ?_⟩
  · have hle := le_floor_markUp hp hv hv'
    have hshare := floor_percentOf_le hv hv' hfloor hfloorLe hp'
    exact .inr ⟨hle, by omega⟩
  · exact floor_markUp_mono hr hramFloor hramFloorLe

/-- With the default margins every plan is sound, for footprints and totals of ordinary size. -/
theorem sound_of_defaults (x : PlanCall) (hmargins : x.resourceMargins = ∅)
    (hresolve : resolveGatewayRequirements x.gateway x.placement = .ok (v, r)) (hv : 0 ≤ v)
    (hv' : v ≤ 2 ^ 30) (hr : 0 ≤ r) (hr' : r ≤ 2 ^ 30) (ht : x.gateway.vramTotalMb ≤ 2 ^ 30) : Sound x := by
  have hheadroom : Margins.vramHeadroomMb ∅ = .ok 2048 := rfl
  have hcap : Margins.vramMarginCapMb ∅ = .ok 4096 := rfl
  have hcover : MarginsCover x.resourceMargins v r x.gateway.vramTotalMb := by
    rw [hmargins]
    exact marginsCover_of_headroom (p := 5) (q := 3) rfl (by norm_num) (by norm_num) rfl (by norm_num)
      (by norm_num) hheadroom (by norm_num) hcap hv hv' hr hr' ht
  intro plan hplan
  exact ⟨checkResources_unload_of_marginsCover hresolve hcover hplan,
    fun m hm => safeVictim_of_plan hplan hm⟩

/-- A call with room to spare returns a plan, which evicts the spare model. -/
theorem sound_of_defaults_tightCall :
    (∃ plan, (tightCall ∅ 8000 4000 24000 (8400 + 2048) 4120).computeEvictionPlan =
      .ok (some (.summary plan))) ∧ Sound (tightCall ∅ 8000 4000 24000 (8400 + 2048) 4120) := by
  have hplanned : Planned ∅ 8000 4000 2048 8400 4120 :=
    ⟨rfl, by decide +kernel, by decide +kernel, ⟨4096, rfl⟩, ⟨_, rfl⟩⟩
  refine ⟨(exists_plan_tightCall hplanned 24000).imp fun _ hplan => hplan.1, ?_⟩
  exact sound_of_defaults (v := 8000) (r := 4000) _ rfl rfl (by norm_num) (by norm_num) (by norm_num)
    (by norm_num) (show (24000 : ℤ) ≤ 2 ^ 30 by norm_num)

end LlmGateway.Eviction
