import Airspace.Proofs.GreatCircle
import Airspace.Proofs.Reach

/-! # Pruning by distance

  An edge is dropped by the distance of the point that is nearest in degrees. That point is
  never farther than any other point of the edge is in degrees, each taken as long as a degree
  of latitude, so an edge that comes within the reach by that measure is kept. By the measure of
  the globe this holds along the meridian of the position, and up to a factor elsewhere: an edge
  that passes a pole or the meridian where longitudes begin again may be dropped although one of
  its ends is close.
-/

namespace Airspace

open Point

/-! ### Globes that measure -/

namespace Globe

/-- A distance is measured to a metre, as far as coordinates are not more than a full turn, and
    is never more than half the circumference. -/
structure Gauges (g : Globe) (p q : Position) (d : ℝ) : Prop where
  stands : Double.Stands (g.distance p q) d
  le_half : d ≤ 180 * kmPerDegree + 1 / 1000
  off_le : ∀ P Q : Point ℝ, p.Stands P → q.Stands Q → P.WithinTurn → Q.WithinTurn →
    |d - greatCircle P Q| ≤ 1 / 1000

/-- A globe measures the distance of two places to a metre. -/
def Accurate (g : Globe) (p q : Position) : Prop := ∃ d, g.Gauges p q d

/-- The half chord of places across from each other may come out longer than the radius, and
    the distance is not-a-number then. -/
def Measures (g : Globe) (p q : Position) : Prop :=
  (g.distance p q).isNaN = true ∨ g.Accurate p q

end Globe

namespace Point

/-- A degree of latitude is some 111 kilometres long. -/
theorem kmPerDegree_mem : 111 < kmPerDegree ∧ kmPerDegree < 112 := by
  have hlow := Real.pi_gt_d2
  have hhigh := Real.pi_lt_d2
  unfold kmPerDegree radians
  constructor <;> linarith

theorem Stands.unique {p : Position} {P Q : Point ℝ} (h : p.Stands P) (h' : p.Stands Q) : P = Q := by
  obtain ⟨lat, lon⟩ := P
  obtain ⟨lat', lon'⟩ := Q
  obtain rfl := h.lat.unique h'.lat
  obtain rfl := h.lon.unique h'.lon
  rfl

/-- A place near one on the map. -/
theorem withinTurn_of_degrees_le {P Q : Point ℝ} (hQ : Q.OnMap) (h : degrees P Q ≤ 180) :
    P.WithinTurn := by
  obtain ⟨hlat, hlon⟩ := abs_sub_le_degrees P Q
  have hlat' := abs_sub Q.lat (Q.lat - P.lat)
  have hlon' := abs_sub Q.lon (Q.lon - P.lon)
  rw [sub_sub_cancel] at hlat' hlon'
  have hQlat := hQ.lat
  have hQlon := hQ.lon
  exact ⟨by linarith, by linarith⟩

/-- Latitudes on the map differ by no more than half a turn. -/
theorem OnMap.abs_lat_sub_le {P Q : Point ℝ} (hP : P.OnMap) (hQ : Q.OnMap) :
    |Q.lat - P.lat| ≤ 180 := by
  have hsum := abs_sub Q.lat P.lat
  have hPlat := hP.lat
  have hQlat := hQ.lat
  linarith

/-- On one meridian degrees are those of latitude. -/
theorem degrees_of_lon_eq {P Q : Point ℝ} (h : Q.lon = P.lon) :
    degrees P Q = |Q.lat - P.lat| := by
  rw [degrees, squaredLength, h, sub_self, mul_zero, add_zero, Real.sqrt_mul_self_eq_abs]

/-- On one meridian and on the map, the distance in degrees is that on the globe. -/
theorem greatCircle_of_lon_eq {P Q : Point ℝ} (h : Q.lon = P.lon) (hlat : |Q.lat - P.lat| ≤ 180) :
    greatCircle P Q = kmPerDegree * degrees P Q := by
  rw [degrees_of_lon_eq h]
  refine greatCircle_of_haversine ?_ hlat
  simp [haversine, halfRadians, h]

/-- From the pole all distances are along meridians. -/
theorem greatCircle_pole {P Q : Point ℝ} (h : P.lat = 90) (hlat : |Q.lat - P.lat| ≤ 180) :
    greatCircle P Q = kmPerDegree * |Q.lat - P.lat| := by
  refine greatCircle_of_haversine ?_ hlat
  have hright : radians P.lat = Real.pi / 2 := by
    rw [h]
    unfold radians
    ring
  rw [haversine, hright, Real.cos_pi_div_two]
  ring

end Point

/-! ### Along meridians -/

namespace Globe

/-- A globe that takes every way for one along a meridian, which it is between places on one
    meridian and from the poles. -/
def meridional : Globe where
  distance p q :=
    if p.lat < q.lat then (q.lat - p.lat) * 111.19492664455873
    else (p.lat - q.lat) * 111.19492664455873
  bearing _ _ := 0
  destination p _ _ := p

theorem within_kmPerDegree : Double.Within 111.19492664455873 kmPerDegree (1 / 2 ^ 41) := by
  have hdigits : Double.digits? 111.19492664455873 = some (7824647346905068, -46) := by
    decide +kernel
  have hlow := Real.pi_gt_d20
  have hhigh := Real.pi_lt_d20
  refine ⟨_, Double.stands_of_digits hdigits, ?_⟩
  unfold kmPerDegree radians
  rw [abs_le]
  constructor <;> norm_num <;> linarith

theorem within_meridional {p q : Position} {P Q : Point ℝ} (hp : p.Stands P) (hq : q.Stands Q)
    (hP : P.OnMap) (hQ : Q.OnMap) :
    Double.Within (meridional.distance p q) (kmPerDegree * |Q.lat - P.lat|) (1 / 2 ^ 30) := by
  obtain ⟨hkm, hkm'⟩ := kmPerDegree_mem
  have hfactor : |kmPerDegree| ≤ 360 := by
    rw [abs_of_pos (by linarith)]
    linarith
  have hPlat := hP.lat
  have hQlat := hQ.lat
  obtain ⟨hlat, -⟩ := abs_sub_le_of_onMap hP hQ
  by_cases hsouth : p.lat < q.lat
  · have hlt := (hp.lat.lt_iff hq.lat).mp hsouth
    have hproduct := Double.within_mul (Double.within_sub hq.lat hp.lat (by linarith))
      within_kmPerDegree (by linarith) hfactor
    have hdistance : meridional.distance p q = (q.lat - p.lat) * 111.19492664455873 := if_pos hsouth
    rw [hdistance, abs_of_pos (sub_pos.mpr hlt), mul_comm kmPerDegree]
    exact hproduct
  · have hle := not_lt.mp fun hlt => hsouth ((hp.lat.lt_iff hq.lat).mpr hlt)
    rw [abs_sub_comm] at hlat
    have hproduct := Double.within_mul (Double.within_sub hp.lat hq.lat (by linarith))
      within_kmPerDegree (by linarith) hfactor
    have hdistance : meridional.distance p q = (p.lat - q.lat) * 111.19492664455873 := if_neg hsouth
    rw [hdistance, abs_sub_comm, abs_of_nonneg (sub_nonneg.mpr hle), mul_comm kmPerDegree]
    exact hproduct

/-- It is accurate along meridians and from the pole. -/
theorem accurate_meridional {p q : Position} {P Q : Point ℝ} (hp : p.Stands P) (hq : q.Stands Q)
    (hP : P.OnMap) (hQ : Q.OnMap) (hway : P.lat = 90 ∨ Q.lon = P.lon) :
    meridional.Accurate p q := by
  obtain ⟨d, hd, hoff⟩ := within_meridional hp hq hP hQ
  have hlat := hP.abs_lat_sub_le hQ
  have hglobe : greatCircle P Q = kmPerDegree * |Q.lat - P.lat| := by
    rcases hway with hpole | hlon
    · exact greatCircle_pole hpole hlat
    · rw [greatCircle_of_lon_eq hlon hlat, degrees_of_lon_eq hlon]
  rw [← hglobe] at hoff
  have hmetre : |d - greatCircle P Q| ≤ 1 / 1000 := le_trans hoff (by norm_num)
  refine ⟨d, ⟨hd, ?_, fun P' Q' hP' hQ' _ _ => ?_⟩⟩
  · have hhalf := greatCircle_le_half P Q
    have habove := le_of_abs_le hmetre
    linarith
  · obtain rfl := hp.unique hP'
    obtain rfl := hq.unique hQ'
    exact hmetre

end Globe

namespace Border.Plan

variable {p : Plan} {a b q : Position} {e : Edge} {P A B Q : Point ℝ} {x y d t c : ℝ}

/-! ### Distances of edges -/

/-- The distance of an edge is below a number, unless it is not-a-number. -/
def DistanceBelow (p : Plan) (e : Edge) (x : ℝ) : Prop :=
  (p.distanceTo e).isNaN = true ∨ ∃ d, Double.Stands (p.distanceTo e) d ∧ d < x

/-- The reach goes beyond a number, unless it is not-a-number. -/
def ReachBeyond (p : Plan) (x : ℝ) : Prop := ∀ m, Double.value? p.reach = some m → (x : EReal) < m

theorem DistanceBelow.mono (h : p.DistanceBelow e x) (hle : x ≤ y) : p.DistanceBelow e y := by
  rcases h with hnan | ⟨d, hd, hlt⟩
  · exact .inl hnan
  · exact .inr ⟨d, hd, lt_of_lt_of_le hlt hle⟩

/-- An edge whose distance is below what the reach goes beyond is kept. -/
theorem DistanceBelow.keeps (h : p.DistanceBelow e x) (hdistinct : (e.1 == e.2) = false)
    (hreach : p.ReachBeyond x) : p.keeps e = true := by
  rw [keeps_iff]
  refine ⟨hdistinct, ?_⟩
  rcases h with hnan | ⟨d, hd, hlt⟩
  · exact .inr (.inl hnan)
  · cases hm : Double.value? p.reach with
    | none => exact .inr (.inr (Double.isNaN_iff_value.mpr hm))
    | some m =>
      have hbelow : (d : EReal) < m := (EReal.coe_lt_coe hlt).trans (hreach m hm)
      exact .inl (Double.lt_iff_value.mpr ⟨d, m, hd, hm, hbelow⟩)

/-- No edge is farther away than any of its points is in degrees, but for a quarter of
    a kilometre. -/
theorem distanceBelow_degrees (hP : p.origin.Stands P) (ha : a.Stands A) (hb : b.Stands B)
    (hA : A.OnMap) (hB : B.OnMap) (hg : p.globe.Measures p.origin (p.origin.nearestOn a b))
    (h₀ : 0 ≤ t) (h₁ : t ≤ 1) :
    p.DistanceBelow (a, b) (kmPerDegree * degrees P (between A B t) + 1 / 4) := by
  obtain ⟨hkm, hkm'⟩ := kmPerDegree_mem
  rcases hg with hnan | ⟨d, hd⟩
  · exact .inl hnan
  · refine .inr ⟨d, hd.stands, ?_⟩
    have hhalf := hd.le_half
    by_cases hfar : 180 < degrees P (between A B t)
    · -- nothing is farther away on the globe than half the circumference
      have hlong : 180 * kmPerDegree ≤ kmPerDegree * degrees P (between A B t) := by nlinarith
      linarith
    · have hturn := withinTurn_of_degrees_le (hA.between hB h₀ h₁) (not_lt.mp hfar)
      obtain ⟨Q, hQ, hQturn, hnearest⟩ := nearestOn_le hP ha hb hturn hA hB
      have hoff := le_of_abs_le (hd.off_le P Q hP hQ hturn hQturn)
      have hscaled : kmPerDegree * degrees P Q ≤
          kmPerDegree * (degrees P (between A B t) + 1 / 500) := by
        gcongr
        exact hnearest t h₀ h₁
      have hglobe := greatCircle_le P Q
      linarith

/-- What a measurement says about the distance in degrees, where that is at most `c`
    times as long as the distance on the globe. -/
theorem degrees_le_of_gauges (hP : p.origin.Stands P) (hq : q.Stands Q) (hPmap : P.OnMap)
    (hQmap : Q.OnMap) (hg : p.globe.Gauges p.origin q d) (hc : 0 ≤ c)
    (hfactor : kmPerDegree * degrees P Q ≤ c * greatCircle P Q) :
    kmPerDegree * degrees P Q ≤ c * (d + 1 / 1000) := by
  have hoff := neg_le_of_abs_le (hg.off_le P Q hP hq hPmap.withinTurn hQmap.withinTurn)
  refine le_trans hfactor ?_
  gcongr
  linarith

/-! ### Edges within reach -/

/-- An edge on the map is kept if one of its points is nearer than the reach in degrees. The
    position may be anywhere. For a position on the map and the measured distance of the point,
    the edge is kept if that distance is more than a kilometre below the reach and the point is
    on the meridian of the position; elsewhere, if it is below the reach when taken
    `π / 2` times as long, and longer still towards the poles. -/
theorem keeps_near (hP : p.origin.Stands P) (ha : a.Stands A) (hb : b.Stands B)
    (hA : A.OnMap) (hB : B.OnMap) (hdistinct : (a == b) = false)
    (hg : p.globe.Measures p.origin (p.origin.nearestOn a b)) (h₀ : 0 ≤ t) (h₁ : t ≤ 1) :
    let Q := between A B t
    let km := kmPerDegree * degrees P Q
    p.DistanceBelow (a, b) (km + 1 / 4) ∧
      (p.ReachBeyond (km + 1 / 4) → p.keeps (a, b) = true) ∧
      ∀ q d, q.Stands Q → P.OnMap → p.globe.Gauges p.origin q d →
        (Q.lon = P.lon → p.DistanceBelow (a, b) (d + 1) ∧
          (p.ReachBeyond (d + 1) → p.keeps (a, b) = true)) ∧
        ∀ c, 0 < c → c ≤ Real.cos (radians P.lat) → c ≤ Real.cos (radians Q.lat) →
          |Q.lon - P.lon| ≤ 180 →
            p.DistanceBelow (a, b) (Real.pi / 2 / c * (d + 1 / 1000) + 1 / 4) ∧
            (p.ReachBeyond (Real.pi / 2 / c * (d + 1 / 1000) + 1 / 4) → p.keeps (a, b) = true) := by
  intro Q km
  have hbelow := distanceBelow_degrees hP ha hb hA hB hg h₀ h₁
  refine ⟨hbelow, hbelow.keeps hdistinct, fun q d hq hPmap hg => ?_⟩
  have hQmap : Q.OnMap := hA.between hB h₀ h₁
  have hlat := hPmap.abs_lat_sub_le hQmap
  constructor
  · -- on the meridian degrees are the distance itself, and a kilometre covers both errors
    intro hlon
    have hfactor : km ≤ 1 * greatCircle P Q := by
      rw [one_mul, greatCircle_of_lon_eq hlon hlat]
    have hkm := degrees_le_of_gauges hP hq hPmap hQmap hg zero_le_one hfactor
    have hmeasured := hbelow.mono (by linarith : km + 1 / 4 ≤ d + 1)
    exact ⟨hmeasured, hmeasured.keeps hdistinct⟩
  · intro c hc hcP hcQ hlon
    have hfactor := degrees_le_greatCircle hc hcP hcQ hlat hlon
    have hnonneg : 0 ≤ Real.pi / 2 / c := by positivity
    have hkm := degrees_le_of_gauges hP hq hPmap hQmap hg hnonneg hfactor
    have hmeasured := hbelow.mono (add_le_add_left hkm (1 / 4))
    exact ⟨hmeasured, hmeasured.keeps hdistinct⟩

/-- A reach that stands for a number goes beyond all smaller ones. -/
theorem reachBeyond_of_stands (h : Double.Stands p.reach d) (hlt : x < d) : p.ReachBeyond x := by
  intro m hm
  obtain rfl := Option.some.inj (h.symm.trans hm)
  exact EReal.coe_lt_coe hlt

/-- The beginning of the edge is nearest, on the meridian of the position and less than 29
    kilometres away. -/
theorem keeps_near_hill :
    let p : Plan := ⟨.meridional, ⟨10, 10⟩, 100, 200, 0⟩
    let a : Position := ⟨10.25, 10⟩
    let b : Position := ⟨10.5, 12⟩
    ∃ d, p.globe.Gauges p.origin a d ∧ d < 29 ∧ p.DistanceBelow (a, b) (d + 1) ∧
      p.keeps (a, b) = true := by
  intro p a b
  obtain ⟨hkm, hkm'⟩ := kmPerDegree_mem
  have hten : Double.Stands 10 10 :=
    Double.stands_of_eq 5629499534213120 (-49) (by decide +kernel) (by norm_num)
  have hlat : Double.Stands 10.25 (41 / 4) :=
    Double.stands_of_eq 5770237022568448 (-49) (by decide +kernel) (by norm_num)
  have hlat' : Double.Stands 10.5 (21 / 2) :=
    Double.stands_of_eq 5910974510923776 (-49) (by decide +kernel) (by norm_num)
  have hlon' : Double.Stands 12 12 :=
    Double.stands_of_eq 6755399441055744 (-49) (by decide +kernel) (by norm_num)
  have hP : p.origin.Stands ⟨10, 10⟩ := ⟨hten, hten⟩
  have ha : a.Stands ⟨41 / 4, 10⟩ := ⟨hlat, hten⟩
  have hb : b.Stands ⟨21 / 2, 12⟩ := ⟨hlat', hlon'⟩
  have hPmap : OnMap ⟨10, 10⟩ := by constructor <;> norm_num
  have hA : OnMap ⟨41 / 4, 10⟩ := by constructor <;> norm_num
  have hB : OnMap ⟨21 / 2, 12⟩ := by constructor <;> norm_num
  have hnearest : (p.origin.nearestOn a b).Stands ⟨41 / 4, 10⟩ := by
    constructor
    · exact Double.stands_of_eq 5770237022568448 (-49) (by decide +kernel) (by norm_num)
    · exact Double.stands_of_eq 5629499534213120 (-49) (by decide +kernel) (by norm_num)
  have hbegin : between (⟨41 / 4, 10⟩ : Point ℝ) ⟨21 / 2, 12⟩ 0 = ⟨41 / 4, 10⟩ := by
    simp [between]
  have hreach : Double.Stands p.reach 100 :=
    Double.stands_of_eq 7036874417766400 (-46) (by decide +kernel) (by norm_num)
  obtain ⟨d, hd⟩ := Globe.accurate_meridional hP ha hPmap hA (.inr rfl)
  have hless : d < 29 := by
    have hoff := le_of_abs_le (hd.off_le _ _ hP ha hPmap.withinTurn hA.withinTurn)
    have hglobe := greatCircle_le ⟨10, 10⟩ ⟨41 / 4, 10⟩
    have hdegrees : degrees ⟨10, 10⟩ ⟨41 / 4, 10⟩ = 1 / 4 := by
      rw [degrees_of_lon_eq] <;> norm_num
    rw [hdegrees] at hglobe
    linarith
  obtain ⟨-, -, hmeasured⟩ := keeps_near hP ha hb hA hB (by decide +kernel)
    (.inr (Globe.accurate_meridional hP hnearest hPmap hA (.inr rfl))) (le_refl 0) zero_le_one
  rw [hbegin] at hmeasured
  obtain ⟨hmeridian, -⟩ := hmeasured a d ha hPmap hd
  obtain ⟨hbelow, hkept⟩ := hmeridian rfl
  exact ⟨d, hd, hless, hbelow, hkept (reachBeyond_of_stands hreach (by linarith))⟩

/-- The beginning of the edge is a degree from the pole, but in degrees the way there leads half
    around the map, and the point that is nearest in degrees is far away. -/
theorem drops_across_pole :
    let p : Plan := ⟨.meridional, ⟨90, 0⟩, 200, 200, 0⟩
    let a : Position := ⟨89, 180⟩
    let b : Position := ⟨60, 0⟩
    (∃ P A B : Point ℝ, p.origin.Stands P ∧ a.Stands A ∧ b.Stands B ∧
      P.OnMap ∧ A.OnMap ∧ B.OnMap) ∧ (a == b) = false ∧
      (∀ q ∈ [a, b, p.origin.nearestOn a b], p.globe.Accurate p.origin q) ∧
      p.globe.distance p.origin a + 1 < p.reach ∧
      ¬ p.distanceTo (a, b) < p.globe.distance p.origin a + 1 ∧ p.keeps (a, b) = false := by
  intro p a b
  have hP : p.origin.Stands ⟨90, 0⟩ :=
    ⟨Double.stands_of_eq 6333186975989760 (-46) (by decide +kernel) (by norm_num),
      Double.stands_zero⟩
  have ha : a.Stands ⟨89, 180⟩ := by
    constructor
    · exact Double.stands_of_eq 6262818231812096 (-46) (by decide +kernel) (by norm_num)
    · exact Double.stands_of_eq 6333186975989760 (-45) (by decide +kernel) (by norm_num)
  have hb : b.Stands ⟨60, 0⟩ :=
    ⟨Double.stands_of_eq 8444249301319680 (-47) (by decide +kernel) (by norm_num),
      Double.stands_zero⟩
  have hPmap : OnMap ⟨90, 0⟩ := by constructor <;> norm_num
  have hA : OnMap ⟨89, 180⟩ := by constructor <;> norm_num
  have hB : OnMap ⟨60, 0⟩ := by constructor <;> norm_num
  obtain ⟨Q, hQ, hQmap⟩ : ∃ Q, (p.origin.nearestOn a b).Stands Q ∧ Q.OnMap := by
    refine ⟨⟨_, _⟩, ⟨Double.stands_of_eq 8551069397923420 (-47) (by decide +kernel) rfl,
      Double.stands_of_eq 5304170314116736 (-50) (by decide +kernel) rfl⟩, ?_⟩
    constructor <;> norm_num [abs_le]
  have haccurate : ∀ {q : Position} {Q : Point ℝ}, q.Stands Q → Q.OnMap →
      p.globe.Accurate p.origin q :=
    fun hq hmap => Globe.accurate_meridional hP hq hPmap hmap (.inl rfl)
  refine ⟨⟨_, _, _, hP, ha, hb, hPmap, hA, hB⟩, by decide +kernel, ?_, ?_, ?_, ?_⟩
  · simp only [List.forall_mem_cons]
    exact ⟨haccurate ha hA, haccurate hb hB, haccurate hQ hQmap, List.forall_mem_nil _⟩
  · decide +kernel
  · decide +kernel
  · decide +kernel

end Border.Plan

end Airspace
