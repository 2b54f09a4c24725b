import Airspace.Guard.Evaluate
import Airspace.Proofs.Drawing
import Airspace.Proofs.Reference

/-! # Loading borders

  A load reads the border table twice, line by line. The first pass may stop early, the
  second must not fail, and between them they come to the search and to the drawing of
  all records at once. What was kept before the load does not matter, and what is loaded
  after the borders leaves them alone.
-/

namespace Airspace

open Border

/-- The records of a reading of the border table. -/
def Reading.border (r : Reading) : List BorderRecord :=
  r.lines.filterMap fun line => Record.border? line.toList

/-- The border table of a volume, without any record if it cannot be opened. -/
def Volume.border (v : Volume) : List BorderRecord :=
  match v.read .countries with
  | .ok reading => reading.border
  | .error _ => []

theorem Volume.border_eq {v : Volume} {r : Reading} (h : v.read .countries = .ok r) :
    v.border = r.border := by
  unfold border
  rw [h]

/-! ### Passes -/

namespace Pass

variable {ε : Type} {ending : Option ε}

/-- A pass that stops as soon as the search has found its polygon finds the same polygon as
    one over all lines. -/
theorem along_search {use : String → EStateM ε Search Unit}
    (huse : ∀ line s, use line s = .ok () ((Record.border? line.toList).elim s s.push))
    (lines : List String) (n : Nat) (s : Search) :
    (along use (·.found.isSome) ending lines n s).gathered.finish =
      ((lines.filterMap fun line => Record.border? line.toList).foldl Search.push s).finish := by
  induction lines generalizing n s with
  | nil => rfl
  | cons line rest ih =>
    have hfold : ((line :: rest).filterMap fun line => Record.border? line.toList).foldl
        Search.push s = (rest.filterMap fun line => Record.border? line.toList).foldl Search.push
          ((Record.border? line.toList).elim s s.push) := by
      rw [List.filterMap_cons]
      cases Record.border? line.toList <;> rfl
    rw [hfold, along, huse]
    show (if _ then _ else _ : Pass ε Search).gathered.finish = _
    -- a search that has found its polygon would let all later records pass
    by_cases hfound : ((Record.border? line.toList).elim s s.push).found.isSome = true
    · obtain ⟨k, hk⟩ := Option.isSome_iff_exists.mp hfound
      rw [if_pos hfound, Search.foldl_push_found hk]
    · rw [if_neg hfound]
      exact ih (n + 1) _

/-- A pass that draws every line and does not fail leaves what is to be finished. -/
theorem along_draw {p : Plan} {use : String → EStateM ε Outline Unit}
    (hok : ∀ line o o', Load.drawLine p line o = .ok () o' → use line o = .ok () o')
    (herror : ∀ line o fault o', Load.drawLine p line o = .error fault o' →
      ∃ e, use line o = .error e o')
    {lines : List String} {n : Nat} {o : Outline}
    (h : (along use (fun _ => false) ending lines n o).failure = none) :
    Drawing.run p (lines.filterMap fun line => Record.border? line.toList) o =
      Drawing.finish p (along use (fun _ => false) ending lines n o).gathered := by
  induction lines generalizing n o with
  | nil => rfl
  | cons line rest ih =>
    rw [along] at h ⊢
    rw [List.filterMap_cons]
    cases hdraw : Load.drawLine p line o with
    | error fault o' =>
      obtain ⟨e, he⟩ := herror line o fault o' hdraw
      rw [he] at h
      cases h
    | ok u o' =>
      rw [hok line o o' hdraw] at h ⊢
      have hrest := ih h
      unfold Load.drawLine at hdraw
      cases hrecord : Record.border? line.toList with
      | none =>
        rw [hrecord] at hdraw
        cases hdraw
        exact hrest
      | some r =>
        rw [hrecord] at hdraw
        show EStateM.bind (Drawing.push p r) (fun _ => Drawing.run p _) o = _
        unfold EStateM.bind
        simp only at hdraw
        rw [hdraw]
        exact hrest

end Pass

namespace Load

variable {b : Basis} {q q' : Progress}

theorem openTable_ok {t : Table} {r : Reading} (h : openTable b t q = .ok r q') :
    b.volume.read t = .ok r ∧ q' = q := by
  unfold openTable at h
  cases hread : b.volume.read t with
  | error fault =>
    rw [hread] at h
    cases h
  | ok reading =>
    rw [hread] at h
    cases h
    exact ⟨rfl, rfl⟩

/-- The outcome of a pass is taken over only if the pass did not fail. -/
theorem conclude_ok {σ : Type} {t : Table} {pass : Pass LoadFault σ}
    {keep : σ → Holdings → Holdings} (h : conclude b t pass keep q = .ok () q') :
    pass.failure = none ∧ q'.holdings = keep pass.gathered q.holdings := by
  obtain ⟨_, q₁, hmodify, hrest⟩ := bind_eq_ok h
  cases hmodify
  cases hfailure : pass.failure with
  | some fault =>
    rw [hfailure] at hrest
    cases hrest
  | none =>
    rw [hfailure] at hrest
    cases hrest
    exact ⟨rfl, rfl⟩

/-! ### Borders -/

theorem searchLine_ok (line : String) (s : Search) :
    searchLine line s = .ok () ((Record.border? line.toList).elim s s.push) := by
  unfold searchLine
  cases Record.border? line.toList <;> rfl

/-- The first pass gives the number that the search over all records gives. -/
theorem reference_ok {k : Nat} (h : reference b q = .ok k q') :
    k = Search.run b.origin b.volume.border ∧
      q'.holdings = { q.holdings with reference := k } := by
  obtain ⟨r, q₁, hopen, hrest⟩ := bind_eq_ok h
  obtain ⟨_, q₂, hconclude, hrest⟩ := bind_eq_ok hrest
  obtain ⟨_, q₃, hchange, hrest⟩ := bind_eq_ok hrest
  cases hchange
  cases hrest
  obtain ⟨hread, hsame⟩ := openTable_ok hopen
  obtain ⟨-, hholdings⟩ := conclude_ok hconclude
  refine ⟨?_, ?_⟩
  · rw [Volume.border_eq hread]
    refine Pass.along_search ?_ r.lines 0 (.start b.origin)
    intro line s
    rw [searchLine_ok]
  · show ({ q₂.holdings with reference := _ } : Holdings) = _
    rw [hholdings, hsame]

/-- The second pass draws all records. -/
theorem outline_ok {k : Nat} {s : Summary} (h : outline b k q = .ok s q') :
    ∃ o, Drawing.run (b.plan k) b.volume.border (.new q.holdings.countries) = .ok s o ∧
      q'.holdings = { q.holdings with countries := o.buffer } := by
  obtain ⟨r, q₁, hopen, hrest⟩ := bind_eq_ok h
  obtain ⟨_, _, hget, hrest⟩ := bind_eq_ok hrest
  cases hget
  obtain ⟨_, q₂, hconclude, hfinish⟩ := bind_eq_ok hrest
  obtain ⟨hread, hsame⟩ := openTable_ok hopen
  obtain ⟨hnone, hholdings⟩ := conclude_ok hconclude
  have hrun : Drawing.run (b.plan k) r.border (.new q₁.holdings.countries) =
      Drawing.finish (b.plan k) (passOver .countries r (drawLine (b.plan k)) (fun _ => false)
        (.new q₁.holdings.countries)).gathered := by
    refine Pass.along_draw ?_ ?_ hnone
    · intro line o o' hdraw
      simp only [hdraw]
    · intro line o fault o' hdraw
      exact ⟨.buffer .countries fault, by simp only [hdraw]⟩
  rw [Volume.border_eq hread, ← hsame]
  -- what the pass has left is finished, and what comes of that is kept
  generalize hdone : Drawing.finish (b.plan k) _ = done at hfinish hrun
  cases done with
  | error fault o =>
    obtain ⟨_, q₃, hchange, hthrow⟩ := bind_eq_ok hfinish
    cases hthrow
  | ok s' o =>
    obtain ⟨_, q₃, hchange, hreturn⟩ := bind_eq_ok hfinish
    cases hchange
    cases hreturn
    refine ⟨o, hrun, ?_⟩
    show ({ q₂.holdings with countries := o.buffer } : Holdings) = _
    rw [hholdings]

/-- What the borders come to does not depend on what was kept before. -/
theorem countries_ok {s : Summary} (h : countries b q = .ok s q') :
    ∃ o, Drawing.run (b.plan (Search.run b.origin b.volume.border)) b.volume.border
        (.new q.holdings.countries.reset) = .ok s o ∧
      q'.holdings = { q.holdings with
        countries := o.buffer
        reference := Search.run b.origin b.volume.border } := by
  obtain ⟨_, q₁, hchange, hrest⟩ := bind_eq_ok h
  cases hchange
  obtain ⟨k, q₂, hreference, houtline⟩ := bind_eq_ok hrest
  obtain ⟨hk, hholdings⟩ := reference_ok hreference
  obtain ⟨o, hrun, hholdings'⟩ := outline_ok houtline
  rw [hk] at hrun hholdings
  rw [hholdings] at hrun hholdings'
  exact ⟨o, hrun, hholdings'⟩

/-- Loading prisons leaves the borders alone. -/
theorem prisons_ok {n : Nat} (h : prisons b q = .ok n q') :
    q'.holdings.countries = q.holdings.countries ∧
      q'.holdings.reference = q.holdings.reference := by
  obtain ⟨_, q₁, hchange, hrest⟩ := bind_eq_ok h
  cases hchange
  obtain ⟨r, q₂, hopen, hrest⟩ := bind_eq_ok hrest
  obtain ⟨_, _, hget, hrest⟩ := bind_eq_ok hrest
  cases hget
  obtain ⟨_, q₃, hconclude, hrest⟩ := bind_eq_ok hrest
  cases hrest
  obtain ⟨-, hsame⟩ := openTable_ok hopen
  obtain ⟨-, hholdings⟩ := conclude_ok hconclude
  rw [hholdings, hsame]
  exact ⟨rfl, rfl⟩

/-- A load that succeeds keeps the outline of the borders and the number of the polygon
    around the position, and reports them. -/
theorem all_ok {report : LoadReport} (hcountry : b.config.countryEnabled = true)
    (h : all b q = .ok report q') :
    ∃ (empty : Buffer Position) (o : Outline), empty.toList = [] ∧
      Drawing.run (b.plan (Search.run b.origin b.volume.border)) b.volume.border (.new empty) =
        .ok report.borders o ∧
      q'.holdings.countries = o.buffer ∧
      q'.holdings.reference = Search.run b.origin b.volume.border ∧
      report.reference = Search.run b.origin b.volume.border := by
  obtain ⟨airports, q₁, -, hrest⟩ := bind_eq_ok h
  obtain ⟨report₁, q₂, hcountries, hrest⟩ := bind_eq_ok hrest
  obtain ⟨prisons, q₃, hprisons, hreport⟩ := bind_eq_ok hrest
  rw [when, if_pos hcountry] at hcountries
  obtain ⟨s, q₄, hborders, hadd⟩ := bind_eq_ok hcountries
  cases hadd
  cases hreport
  obtain ⟨o, hrun, hholdings⟩ := countries_ok hborders
  -- the prisons come after the borders
  have hleft : q'.holdings.countries = q₂.holdings.countries ∧
      q'.holdings.reference = q₂.holdings.reference := by
    unfold when at hprisons
    split at hprisons
    · exact prisons_ok hprisons
    · cases hprisons
      exact ⟨rfl, rfl⟩
  refine ⟨_, o, Buffer.toList_reset q₁.holdings.countries, hrun, ?_, ?_, ?_⟩
  · rw [hleft.1, hholdings]
  · rw [hleft.2, hholdings]
  · show q₂.holdings.reference = _
    rw [hholdings]

end Load

end Airspace
