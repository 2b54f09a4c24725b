import Airspace.Proofs.Atomicity

/-! # Check-ins of a load

  With a yield interval of zero the supervisor hears of every line that is read, whatever stands
  in it. The check-ins of a load are then those of its passes one after the other: airports,
  borders up to the line with which the polygon around the position is found, borders once
  more, prisons. A fault ends the list: after the line of which the use fails, but before a line
  that cannot be read, since it is not used.
-/

namespace Airspace

open Border

/-- The check-ins at the first `n` lines of a table. -/
def CheckIn.upTo (t : Table) (n : Nat) : List CheckIn := (List.range n).map fun i => ⟨t, i + 1⟩

/-! ### Lines of a pass -/

/-- A search that was shown the records of some lines. -/
def searchAfter (origin : Position) (lines : List String) : Search :=
  (lines.filterMap fun line => Record.border? line.toList).foldl Search.push (.start origin)

/-- The polygon that a search has found with some lines, if it has found one. -/
def foundIn (origin : Position) (lines : List String) : Option Nat :=
  (searchAfter origin lines).found

/-- The number of the line with whose record a search finds its polygon, or of the last line if
    it finds none. -/
def searchedLines (origin : Position) (lines : List String) : Nat :=
  match (List.range lines.length).find? fun i => (foundIn origin (lines.take (i + 1))).isSome with
  | some i => i + 1
  | none => lines.length

namespace Pass

/-- Where a pass over a reading breaks off, by the number of lines that were checked in with. -/
inductive BreaksOff {σ : Type} (t : Table) (r : Reading)
    (use : String → EStateM BufferFault σ Unit) (s : σ) : Nat → LoadFault → Prop
  /-- All lines were used, and the next one cannot be read. -/
  | unread {s' : σ} {cause : String} (used : r.lines.forM use s = .ok () s')
      (next : r.fault = some cause) :
      BreaksOff t r use s r.lines.length (.storage (.unreadable t cause))
  /-- The use of a line fails, after all lines before it were used. -/
  | refused {before after : List String} {line : String} {s' s'' : σ} {fault : BufferFault}
      (lines : r.lines = before ++ line :: after) (used : before.forM use s = .ok () s')
      (failed : use line s' = .error fault s'') :
      BreaksOff t r use s (before.length + 1) (.buffer t fault)

variable {ε ε' σ : Type} {tagged : String → EStateM ε' σ Unit}

/-- A pass that never has enough hands over all lines, or the lines up to the first whose use
    fails. -/
theorem along_scanned (tag : ε → ε') (use : String → EStateM ε σ Unit)
    (htag : ∀ line s, tagged line s = match use line s with
      | .ok u s => .ok u s
      | .error fault s => .error (tag fault) s)
    (ending : Option ε') (lines : List String) (n : Nat) (s : σ) :
    let pass := along tagged (fun _ => false) ending lines n s
    (lines.forM use s = .ok () pass.gathered ∧ pass.scanned = n + lines.length ∧
        pass.failure = ending) ∨
      ∃ before line after s' s'' fault, lines = before ++ line :: after ∧
        before.forM use s = .ok () s' ∧ use line s' = .error fault s'' ∧
        pass.scanned = n + (before.length + 1) ∧ pass.failure = some (tag fault) := by
  induction lines generalizing n s with
  | nil => exact Or.inl ⟨rfl, rfl, rfl⟩
  | cons line rest ih =>
    rw [along, htag]
    cases huse : use line s with
    | error fault s' => exact Or.inr ⟨[], line, rest, s, s', fault, rfl, rfl, huse, rfl, rfl⟩
    | ok u s' =>
      -- the lines behind are used from where the first one leads
      have hcons : ∀ more : List String, (line :: more).forM use s = more.forM use s' := by
        intro more
        show EStateM.bind (use line) (fun _ => more.forM use) s = _
        unfold EStateM.bind
        rw [huse]
      simp only [Bool.false_eq_true, if_false]
      rcases ih (n + 1) s' with ⟨hused, hscanned, hfailure⟩ |
        ⟨before, line', after, s₁, s₂, fault, hlines, hused, hfailed, hscanned, hfailure⟩
      · refine Or.inl ⟨(hcons rest).trans hused, ?_, hfailure⟩
        rw [List.length_cons]
        omega
      · refine Or.inr ⟨line :: before, line', after, s₁, s₂, fault, by rw [hlines]; rfl,
          (hcons before).trans hused, hfailed, ?_, hfailure⟩
        rw [List.length_cons]
        omega

end Pass

section

variable {origin : Position} {lines seen : List String}

theorem searchAfter_concat (origin : Position) (seen : List String) (line : String) :
    searchAfter origin (seen ++ [line]) = (Record.border? line.toList).elim
      (searchAfter origin seen) (searchAfter origin seen).push := by
  unfold searchAfter
  rw [List.filterMap_append, List.foldl_append, List.filterMap_cons]
  cases Record.border? line.toList <;> rfl

/-- What has been found stays found. -/
theorem foundIn_append {k : Nat} (h : foundIn origin seen = some k) (after : List String) :
    foundIn origin (seen ++ after) = some k := by
  unfold foundIn searchAfter at h ⊢
  rw [List.filterMap_append, List.foldl_append, Search.foldl_push_found h]
  exact h

theorem foundIn_take (h : foundIn origin lines = none) (n : Nat) :
    foundIn origin (lines.take n) = none := by
  cases hfound : foundIn origin (lines.take n) with
  | none => rfl
  | some k =>
    have hlater := foundIn_append hfound (lines.drop n)
    rw [List.take_append_drop, h] at hlater
    cases hlater

theorem searchedLines_of_none (h : foundIn origin lines = none) :
    searchedLines origin lines = lines.length := by
  have hnot : (List.range lines.length).find? (fun i =>
      (foundIn origin (lines.take (i + 1))).isSome) = none := by
    rw [List.find?_eq_none]
    intro i _
    rw [foundIn_take h]
    exact Bool.false_ne_true
  unfold searchedLines
  rw [hnot]

theorem searchedLines_of_found {line : String} {rest : List String}
    (hseen : foundIn origin seen = none) (hline : (foundIn origin (seen ++ [line])).isSome = true) :
    searchedLines origin (seen ++ line :: rest) = seen.length + 1 := by
  have hfirst : (List.range (seen ++ line :: rest).length).find? (fun i =>
      (foundIn origin ((seen ++ line :: rest).take (i + 1))).isSome) = some seen.length := by
    rw [List.find?_range_eq_some]
    refine ⟨?_, ?_, ?_⟩
    · have htake : (seen ++ line :: rest).take (seen.length + 1) = seen ++ [line] := by
        rw [List.take_length_add_append]
        rfl
      rwa [htake]
    · simp
    · -- with fewer lines nothing was found
      intro i hi
      have htake : (seen ++ line :: rest).take (i + 1) = seen.take (i + 1) :=
        List.take_append_of_le_length hi
      rw [htake, foundIn_take hseen]
      rfl
  unfold searchedLines
  rw [hfirst]

end

/-- A pass of a search ends with the line that decides it. -/
theorem Pass.along_searched {ε : Type} {origin : Position} {ending : Option ε}
    {use : String → EStateM ε Search Unit}
    (huse : ∀ line s, use line s = .ok () ((Record.border? line.toList).elim s s.push))
    (seen rest : List String) (hseen : foundIn origin seen = none) :
    (along use (·.found.isSome) ending rest seen.length (searchAfter origin seen)).scanned =
      searchedLines origin (seen ++ rest) := by
  induction rest generalizing seen with
  | nil =>
    rw [List.append_nil, searchedLines_of_none hseen]
    rfl
  | cons line rest ih =>
    rw [along, huse]
    show (if _ then _ else _ : Pass ε Search).scanned = _
    rw [← searchAfter_concat]
    show (if (foundIn origin (seen ++ [line])).isSome then _ else _ : Pass ε Search).scanned = _
    by_cases hfound : (foundIn origin (seen ++ [line])).isSome = true
    · rw [if_pos hfound, searchedLines_of_found hseen hfound]
    · have hnone := Option.not_isSome_iff_eq_none.mp hfound
      have hrest := ih (seen ++ [line]) hnone
      rw [List.length_append, List.length_singleton, List.append_assoc, List.singleton_append]
        at hrest
      rw [if_neg hfound]
      exact hrest

namespace Load

/-! ### Where a load breaks off -/

/-- A buffer as it is at the beginning of a load. -/
def Basis.blank {α : Type} (b : Basis) : Buffer α :=
  .new b.config.initialCapacity b.config.recordLimit

/-- The check-ins at a table that is loaded. The borders are searched before they are drawn. -/
def Basis.checkInsAt (b : Basis) : Table → List CheckIn
  | .airports => CheckIn.upTo .airports (b.volume.lines .airports).length
  | .countries =>
    CheckIn.upTo .countries (searchedLines b.origin (b.volume.lines .countries)) ++
      CheckIn.upTo .countries (b.volume.lines .countries).length
  | .prisons => CheckIn.upTo .prisons (b.volume.lines .prisons).length

/-- How the load of a table breaks off: with which fault, and after which check-ins. -/
inductive Basis.CutOff (b : Basis) : Table → LoadFault → List CheckIn → Prop
  /-- The table cannot be opened. -/
  | unopened {t : Table} {fault : StorageFault} (closed : b.volume.read t = .error fault) :
      b.CutOff t (.storage fault) []
  /-- The pass over the airports breaks off. -/
  | airports {r : Reading} {n : Nat} {fault : LoadFault}
      (opened : b.volume.read .airports = .ok r)
      (cut : Pass.BreaksOff .airports r (keepAirport b) b.blank n fault) :
      b.CutOff .airports fault (CheckIn.upTo .airports n)
  /-- The borders cannot be read to their end, and no polygon around the position has ended
      before. -/
  | searching {r : Reading} {cause : String} (opened : b.volume.read .countries = .ok r)
      (missed : foundIn b.origin r.lines = none) (unread : r.fault = some cause) :
      b.CutOff .countries (.storage (.unreadable .countries cause))
        (CheckIn.upTo .countries r.lines.length)
  /-- The search is through, and the pass that draws the borders breaks off. -/
  | drawing {r : Reading} {n : Nat} {fault : LoadFault}
      (opened : b.volume.read .countries = .ok r)
      (searched : (foundIn b.origin r.lines).isSome = true ∨ r.fault = none)
      (cut : Pass.BreaksOff .countries r (drawLine b.borderPlan) (.new b.blank) n fault) :
      b.CutOff .countries fault (CheckIn.upTo .countries (searchedLines b.origin r.lines) ++
        CheckIn.upTo .countries n)
  /-- All lines of the borders are drawn, and there is no room to end the last polygon. -/
  | ending {r : Reading} {o o' : Outline} {fault : BufferFault}
      (opened : b.volume.read .countries = .ok r) (whole : r.fault = none)
      (drawn : r.lines.forM (drawLine b.borderPlan) (.new b.blank) = .ok () o)
      (failed : Drawing.finish b.borderPlan o = .error fault o') :
      b.CutOff .countries (.buffer .countries fault)
        (CheckIn.upTo .countries (searchedLines b.origin r.lines) ++
          CheckIn.upTo .countries r.lines.length)
  /-- The pass over the prisons breaks off. -/
  | prisons {r : Reading} {n : Nat} {fault : LoadFault}
      (opened : b.volume.read .prisons = .ok r)
      (cut : Pass.BreaksOff .prisons r (keepPrison b) b.blank n fault) :
      b.CutOff .prisons fault (CheckIn.upTo .prisons n)

/-! ### Single passes -/

variable {b : Basis} {q : Progress} {t : Table}

theorem checkInsOf_eq {c : Config} (h : c.yieldInterval = 0) (t : Table) (n : Nat) :
    checkInsOf c t n = CheckIn.upTo t n := if_pos h

/-- A pass that never has enough checks in at every line of the reading, or it breaks off. -/
theorem passOver_scanned {σ : Type} (t : Table) (r : Reading)
    (use : String → EStateM BufferFault σ Unit) (s : σ) :
    let pass := passOver t r use (fun _ => false) s
    (pass.failure = none → r.fault = none ∧ r.lines.forM use s = .ok () pass.gathered ∧
        pass.scanned = r.lines.length) ∧
      ∀ fault, pass.failure = some fault → Pass.BreaksOff t r use s pass.scanned fault := by
  intro pass
  have hpass : (r.lines.forM use s = .ok () pass.gathered ∧ pass.scanned = 0 + r.lines.length ∧
        pass.failure = r.fault.map fun cause => .storage (.unreadable t cause)) ∨
      ∃ before line after s' s'' fault, r.lines = before ++ line :: after ∧
        before.forM use s = .ok () s' ∧ use line s' = .error fault s'' ∧
        pass.scanned = 0 + (before.length + 1) ∧ pass.failure = some (.buffer t fault) := by
    refine Pass.along_scanned (LoadFault.buffer t) use ?_ _ r.lines 0 s
    intro line s
    cases use line s <;> rfl
  rw [Nat.zero_add] at hpass
  rcases hpass with ⟨hused, hscanned, hfailure⟩ |
    ⟨before, line, after, s', s'', fault, hlines, hused, hfailed, hscanned, hfailure⟩
  · rw [hfailure, hscanned]
    refine ⟨fun hnone => ⟨Option.map_eq_none_iff.mp hnone, hused, rfl⟩, ?_⟩
    intro fault hfault
    obtain ⟨cause, hcause, rfl⟩ := Option.map_eq_some_iff.mp hfault
    exact .unread hused hcause
  · rw [hfailure, hscanned, Nat.zero_add]
    refine ⟨fun hnone => absurd hnone (Option.some_ne_none _), ?_⟩
    intro fault' hfault
    obtain rfl := Option.some.inj hfault
    exact .refused hlines hused hfailed

/-- A search checks in up to the line that decides it. -/
theorem passOver_searched (origin : Position) (r : Reading) :
    (passOver .countries r searchLine (·.found.isSome) (.start origin)).scanned =
      searchedLines origin r.lines := by
  refine Pass.along_searched ?_ [] r.lines rfl
  intro line s
  rw [searchLine_ok]

/-! ### Single steps -/

theorem openTable_cutOff (t : Table) :
    Ensures (openTable b t) q (fun r q' => b.volume.read t = .ok r ∧ q' = q)
      (fun fault q' => b.CutOff t fault [] ∧ q' = q) := by
  unfold Ensures openTable
  cases hread : b.volume.read t with
  | ok r => exact ⟨rfl, rfl⟩
  | error fault => exact ⟨.unopened hread, rfl⟩

/-- The check-ins of a pass are added whether it has failed or not. -/
theorem conclude_checkIns {σ : Type} (hyield : b.config.yieldInterval = 0) (t : Table)
    (pass : Pass LoadFault σ) (keep : σ → Holdings → Holdings) :
    Ensures (conclude b t pass keep) q
      (fun _ q' => pass.failure = none ∧ q'.checkIns = q.checkIns ++ CheckIn.upTo t pass.scanned)
      (fun fault q' => pass.failure = some fault ∧
        q'.checkIns = q.checkIns ++ CheckIn.upTo t pass.scanned) := by
  rw [← checkInsOf_eq hyield]
  refine Ensures.bind_of_ok rfl ?_
  cases pass.failure with
  | none => exact ⟨rfl, rfl⟩
  | some fault => exact ⟨rfl, rfl⟩

/-! ### Single tables -/

/-- The check-ins of the load of one table: all, or those up to where it breaks off. -/
def TableTraced {α : Type} (b : Basis) (t : Table) (load : Load α) (q : Progress) : Prop :=
  Ensures load q
    (fun _ q' => q'.checkIns = q.checkIns ++ b.checkInsAt t)
    (fun fault q' => ∃ cut, b.CutOff t fault cut ∧ q'.checkIns = q.checkIns ++ cut)

theorem keepTable_traced {α : Type} {use : String → EStateM BufferFault (Buffer α) Unit}
    {get : Holdings → Buffer α} {set : Buffer α → Holdings → Holdings}
    (hyield : b.config.yieldInterval = 0) (hget : ∀ x h, get (set x h) = x)
    (hs : (get q.holdings).Sound b.config.firstCapacity b.config.recordLimit)
    (hwhole : b.checkInsAt t = CheckIn.upTo t (b.volume.lines t).length)
    (hcut : ∀ {r n fault}, b.volume.read t = .ok r → Pass.BreaksOff t r use b.blank n fault →
      b.CutOff t fault (CheckIn.upTo t n)) :
    TableTraced b t (keepTable b t use get set) q := by
  unfold TableTraced
  rw [hwhole]
  refine Ensures.bind_of_ok rfl ?_
  refine (openTable_cutOff t).seq ?_ ?_
  · rintro fault q₁ ⟨hclosed, rfl⟩
    exact ⟨[], hclosed, (List.append_nil _).symm⟩
  · rintro r q₁ ⟨hread, rfl⟩
    refine Ensures.bind_of_ok rfl ?_
    -- the pass begins with the buffer as it was made
    have hblank : (get q.holdings).reset = b.blank := hs.reset_eq
    rw [hget, hblank, (Volume.of_read hread).1]
    obtain ⟨hthrough, hbreaks⟩ := passOver_scanned t r use b.blank
    refine (conclude_checkIns hyield t _ set).seq ?_ ?_
    · rintro fault q₂ ⟨hfailure, hcheckIns⟩
      exact ⟨_, hcut hread (hbreaks fault hfailure), hcheckIns⟩
    · rintro _ q₂ ⟨hnone, hcheckIns⟩
      obtain ⟨-, -, hscanned⟩ := hthrough hnone
      rw [hscanned] at hcheckIns
      exact hcheckIns

theorem airports_traced (hyield : b.config.yieldInterval = 0) (hs : q.holdings.Sound b.config) :
    TableTraced b .airports (airports b) q := by
  rw [airports_eq_keepTable]
  exact keepTable_traced hyield (fun _ _ => rfl) hs.airports rfl .airports

theorem prisons_traced (hyield : b.config.yieldInterval = 0) (hs : q.holdings.Sound b.config) :
    TableTraced b .prisons (prisons b) q := by
  rw [prisons_eq_keepTable]
  exact keepTable_traced hyield (fun _ _ => rfl) hs.prisons rfl .prisons

/-! ### Borders -/

/-- The first pass checks in up to the line that decides the search, or up to the last line
    that can be read. -/
theorem reference_traced (hyield : b.config.yieldInterval = 0) :
    Ensures (reference b) q
      (fun _ q' => ∃ r, b.volume.read .countries = .ok r ∧
        ((foundIn b.origin r.lines).isSome = true ∨ r.fault = none) ∧
        q'.checkIns = q.checkIns ++ CheckIn.upTo .countries (searchedLines b.origin r.lines))
      (fun fault q' => ∃ cut, b.CutOff .countries fault cut ∧
        q'.checkIns = q.checkIns ++ cut) := by
  refine (openTable_cutOff .countries).seq ?_ ?_
  · rintro fault q₁ ⟨hclosed, rfl⟩
    exact ⟨[], hclosed, (List.append_nil _).symm⟩
  · rintro r q₁ ⟨hread, rfl⟩
    have hconclude := conclude_checkIns (q := q₁) hyield .countries
      (passOver .countries r searchLine (·.found.isSome) (.start b.origin)) fun _ h => h
    rw [passOver_searched, passOver_search_failure] at hconclude
    refine hconclude.seq ?_ ?_
    · rintro fault q₂ ⟨hfailure, hcheckIns⟩
      split at hfailure
      · cases hfailure
      · next hmissed =>
        -- where nothing is found the search has seen all lines
        have hnone := Option.not_isSome_iff_eq_none.mp hmissed
        obtain ⟨cause, hcause, rfl⟩ := Option.map_eq_some_iff.mp hfailure
        rw [searchedLines_of_none hnone] at hcheckIns
        exact ⟨_, .searching hread hnone hcause, hcheckIns⟩
    · rintro _ q₂ ⟨hnone, hcheckIns⟩
      refine ⟨r, hread, ?_, hcheckIns⟩
      split at hnone
      · next hfound => exact Or.inl hfound
      · exact Or.inr (Option.map_eq_none_iff.mp hnone)

/-- The second pass checks in at every line, or it breaks off; what comes behind it makes no
    check-in. -/
theorem outline_traced {r : Reading} (hyield : b.config.yieldInterval = 0)
    (hread : b.volume.read .countries = .ok r)
    (hsearched : (foundIn b.origin r.lines).isSome = true ∨ r.fault = none)
    (hblank : q.holdings.countries = b.blank) :
    let searched := CheckIn.upTo .countries (searchedLines b.origin r.lines)
    Ensures (outline b (Search.run b.origin b.volume.border)) q
      (fun _ q' => q'.checkIns = q.checkIns ++ CheckIn.upTo .countries r.lines.length)
      (fun fault q' => ∃ cut, b.CutOff .countries fault (searched ++ cut) ∧
        q'.checkIns = q.checkIns ++ cut) := by
  intro searched
  refine Ensures.bind_of_ok (a := r) (t := q) ?_ (Ensures.bind_of_ok rfl ?_)
  · unfold openTable
    rw [hread]
    rfl
  · have hplan : b.plan (Search.run b.origin b.volume.border) = b.borderPlan := rfl
    rw [hplan, hblank]
    obtain ⟨hthrough, hbreaks⟩ :=
      passOver_scanned .countries r (drawLine b.borderPlan) (.new b.blank)
    refine (conclude_checkIns hyield .countries _ _).seq ?_ ?_
    · rintro fault q₁ ⟨hfailure, hcheckIns⟩
      exact ⟨_, .drawing hread hsearched (hbreaks fault hfailure), hcheckIns⟩
    · rintro _ q₁ ⟨hnone, hcheckIns⟩
      obtain ⟨hend, hdrawn, hscanned⟩ := hthrough hnone
      rw [hscanned] at hcheckIns
      generalize passOver .countries r (drawLine b.borderPlan) _ _ = pass at hdrawn ⊢
      cases hfinish : Drawing.finish b.borderPlan pass.gathered with
      | ok s o => exact Ensures.bind_of_ok rfl hcheckIns
      | error fault o =>
        exact Ensures.bind_of_ok rfl ⟨_, .ending hread hend hdrawn hfinish, hcheckIns⟩

theorem countries_traced (hyield : b.config.yieldInterval = 0)
    (hs : q.holdings.Sound b.config) : TableTraced b .countries (countries b) q := by
  refine Ensures.bind_of_ok rfl ?_
  refine (reference_ensures.and (reference_traced hyield)).seq (fun _ _ h => h.2) ?_
  rintro _ q₁ ⟨⟨-, rfl, hholdings⟩, r, hread, hsearched, hcheckIns⟩
  have hblank : q₁.holdings.countries = b.blank := by
    rw [hholdings]
    exact hs.countries.reset_eq
  refine (outline_traced hyield hread hsearched hblank).mono ?_ ?_
  · intro _ q₂ hcheckIns'
    rw [hcheckIns, List.append_assoc] at hcheckIns'
    rw [Basis.checkInsAt, (Volume.of_read hread).1]
    exact hcheckIns'
  · rintro fault q₂ ⟨cut, hcut, hcheckIns'⟩
    rw [hcheckIns, List.append_assoc] at hcheckIns'
    exact ⟨_, hcut, hcheckIns'⟩

/-! ### All tables -/

/-- The tables in the order of loading. -/
def order : List Table := [.airports, .countries, .prisons]

/-- The load has gone through some tables, one after the other, and these are the check-ins. -/
structure Basis.WentThrough (b : Basis) (ts : List Table) (checkIns : List CheckIn) : Prop where
  loaded : ∀ t ∈ ts, b.fault? t = none
  checkIns_eq : checkIns = ts.flatMap b.checkInsAt

/-- The load has gone through some tables and broken off at the next one. -/
def Basis.BrokeOff (b : Basis) (before : List Table) (t : Table) (fault : LoadFault)
    (checkIns : List CheckIn) : Prop :=
  ∃ whole cut, b.WentThrough before whole ∧ b.CutOff t fault cut ∧ checkIns = whole ++ cut

/-- The check-ins of a load that ends so. Of the tables that are checked, it goes through all,
    or it breaks off at one of them and does not come to those behind. -/
def Basis.Traced (b : Basis) (checkIns : List CheckIn) : Except LoadFault LoadReport → Prop
  | .ok _ => b.WentThrough (order.filter b.config.checks) checkIns
  | .error fault => ∃ before t after, order.filter b.config.checks = before ++ t :: after ∧
      b.BrokeOff before t fault checkIns

theorem Basis.WentThrough.concat {before : List Table} {checkIns : List CheckIn}
    (hbefore : b.WentThrough before checkIns) (hnone : b.fault? t = none) :
    b.WentThrough (before ++ [t]) (checkIns ++ b.checkInsAt t) := by
  refine ⟨?_, ?_⟩
  · intro u hu
    rcases List.mem_append.mp hu with hold | hnew
    · exact hbefore.loaded u hold
    · obtain rfl := List.mem_singleton.mp hnew
      exact hnone
  · rw [List.flatMap_append, List.flatMap_singleton, ← hbefore.checkIns_eq]

/-- A table that is checked is gone through next, or the load breaks off there. -/
theorem when_traced {α : Type} {load : Load α} {before : List Table}
    {counts : α → Holdings → Prop} (otherwise : α)
    (hbefore : b.WentThrough (before.filter b.config.checks) q.checkIns)
    (htable : TableEnsures b t load q counts) (hload : TableTraced b t load q) :
    Ensures (when (b.config.checks t) load otherwise) q
      (fun _ q' => b.WentThrough ((before ++ [t]).filter b.config.checks) q'.checkIns)
      (fun fault q' => b.config.checks t = true ∧
        b.BrokeOff (before.filter b.config.checks) t fault q'.checkIns) := by
  unfold when
  rw [List.filter_append]
  by_cases hchecked : b.config.checks t = true
  · rw [if_pos hchecked, List.filter_cons_of_pos hchecked]
    refine (htable.and hload).mono ?_ ?_
    · rintro _ q' ⟨⟨-, hnone, -⟩, hcheckIns⟩
      rw [hcheckIns]
      exact hbefore.concat hnone
    · rintro fault q' ⟨-, cut, hcut, hcheckIns⟩
      exact ⟨hchecked, q.checkIns, cut, hbefore, hcut, hcheckIns⟩
  · rw [if_neg hchecked, List.filter_cons_of_neg hchecked, List.filter_nil, List.append_nil]
    exact hbefore

/-- The report does not matter for the check-ins. -/
theorem reportCountries_traced (hyield : b.config.yieldInterval = 0)
    (hs : q.holdings.Sound b.config) (r : LoadReport) :
    TableTraced b .countries (reportCountries b r) q :=
  (countries_traced hyield hs).bind fun _ _ hcheckIns => hcheckIns

/-- A table that is checked splits those that are checked. -/
theorem filter_order {c : Config} {before after : List Table} (h : order = before ++ t :: after)
    (hchecked : c.checks t = true) :
    order.filter c.checks = before.filter c.checks ++ t :: after.filter c.checks := by
  rw [h, List.filter_append, List.filter_cons_of_pos hchecked]

/-- The check-ins of a load of all tables. -/
theorem all_traced (hyield : b.config.yieldInterval = 0) (hs : q.holdings.Sound b.config)
    (hq : q.checkIns = []) :
    Ensures (all b) q (fun report q' => b.Traced q'.checkIns (.ok report))
      (fun fault q' => b.Traced q'.checkIns (.error fault)) := by
  have hnone : b.WentThrough (([] : List Table).filter b.config.checks) q.checkIns :=
    ⟨fun _ hmem => absurd hmem List.not_mem_nil, hq⟩
  have hfirst := (when_ensures 0 (Basis.reached_zero hs) (airports_table hs)).and
    (when_traced 0 hnone (airports_table hs) (airports_traced hyield hs))
  refine hfirst.seq ?_ ?_
  · rintro fault q₁ ⟨-, hchecked, hbroke⟩
    exact ⟨_, _, _, filter_order rfl hchecked, hbroke⟩
  rintro airports q₁ ⟨⟨hreached₁, -⟩, hthrough₁⟩
  have hs₁ := hreached₁.sound
  have hborders := reportCountries_table hs₁ { LoadReport.zero with airports := airports }
  have hsecond := (when_ensures (t := .countries) { LoadReport.zero with airports := airports }
    hreached₁ hborders).and
    (when_traced _ hthrough₁ hborders (reportCountries_traced hyield hs₁ _))
  refine hsecond.seq ?_ ?_
  · rintro fault q₂ ⟨-, hchecked, hbroke⟩
    exact ⟨_, _, _, filter_order rfl hchecked, hbroke⟩
  rintro report q₂ ⟨⟨hreached₂, -⟩, hthrough₂⟩
  have hs₂ := hreached₂.sound
  have hthird := when_traced 0 hthrough₂ (prisons_table hs₂) (prisons_traced hyield hs₂)
  refine hthird.seq ?_ ?_
  · rintro fault q₃ ⟨hchecked, hbroke⟩
    exact ⟨_, _, _, filter_order rfl hchecked, hbroke⟩
  · intro _ q₃ hthrough₃
    exact hthrough₃

end Load

namespace Guard

/-- The check-ins of an ingestion, whatever the guard was told before and whichever way the
    ingestion ends. -/
theorem ingest_traced (globe : Globe) (c : Config) (run : List (Volume × Command)) (v : Volume)
    (hyield : c.yieldInterval = 0) :
    let g := (new globe c).after run
    let b : Load.Basis := ⟨globe, c, v, g.position⟩
    let i := (g.ingest v).2
    b.Traced i.checkIns i.outcome := by
  intro g b i
  have hfit : g.Fit c := (fit_new globe c).after run
  have hglobe : g.globe = globe := after_globe _ run
  have hall := Load.all_traced (b := b) (q := ⟨g.holdings, []⟩) hyield hfit.sound rfl
  have hi : i = g.ingestion v := rfl
  rw [hi]
  unfold ingestion
  rw [hfit.config_eq, hglobe]
  cases hend : Load.all ⟨globe, c, v, g.position⟩ ⟨g.holdings, []⟩ with
  | ok report q => exact hall.of_ok hend
  | error fault q => exact hall.of_error hend

/-- A square, a place far from it, and prisons without a record. -/
def parcels : Volume :=
  (Volume.empty.putLines .countries ["1,1", "5,1", "5,5", "1,5", "#", "", "20,20"]).putLines
    .prisons [" ", " "]

/-- Countries and prisons are checked, and every line is checked in with. -/
def watched (limit : Nat) : Config :=
  { cramped limit with bypass := ⟨true, false, false⟩, yieldInterval := 0 }

/-- The search ends with the line that ends the square. With room for six vertices the load
    goes on to the prisons; with room for five it ends where the square would be closed. -/
theorem ingest_traced_parcels :
    let g (limit : Nat) := (new .sphere (watched limit)).after arrival
    let b (limit : Nat) : Load.Basis := ⟨.sphere, watched limit, parcels, (g limit).position⟩
    let i (limit : Nat) := ((g limit).ingest parcels).2
    (i 6).checkIns = CheckIn.upTo .countries 5 ++ CheckIn.upTo .countries 7 ++
        CheckIn.upTo .prisons 2 ∧
      (i 5).checkIns = CheckIn.upTo .countries 5 ++ CheckIn.upTo .countries 5 ∧
      (i 5).outcome = .error (.buffer .countries (.limitReached 5)) ∧
      (b 5).Traced (CheckIn.upTo .countries 5 ++ CheckIn.upTo .countries 5)
        (.error (.buffer .countries (.limitReached 5))) := by
  intro g b i
  have hwhole : (b 6).Traced (i 6).checkIns (i 6).outcome :=
    ingest_traced .sphere (watched 6) arrival parcels rfl
  have hloaded : (i 6).outcome = .ok ⟨1, ⟨2, 1, 0, 0, 0⟩, 6, 0, 0⟩ := by decide +kernel
  rw [hloaded] at hwhole
  have hbroke : (b 5).Traced (i 5).checkIns (i 5).outcome :=
    ingest_traced .sphere (watched 5) arrival parcels rfl
  have hcheckIns : (i 5).checkIns = CheckIn.upTo .countries 5 ++ CheckIn.upTo .countries 5 := by
    decide +kernel
  have hfault : (i 5).outcome = .error (.buffer .countries (.limitReached 5)) := by
    decide +kernel
  rw [hcheckIns, hfault] at hbroke
  refine ⟨?_, hcheckIns, hfault, hbroke⟩
  rw [hwhole.checkIns_eq]
  decide +kernel

end Guard

end Airspace
