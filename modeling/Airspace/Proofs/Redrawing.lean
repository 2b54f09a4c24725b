import Airspace.Proofs.Country
import Airspace.Proofs.Variants

/-! # Only geometry matters

  Loads from two variants of a volume come to the same: they fail with the same fault, or they
  count the same, and either way the same is kept. Only the check-ins differ, as they count
  lines. So a guard becomes the same guard on either of the two, whatever it is told, and its
  verdicts are the same at every position.
-/

namespace Airspace

open Border

/-- Two computations come to the same if their beginnings do, and if they go on alike from
    states that look alike. -/
theorem outcome_bind {ε σ τ α β : Type} {view : σ → τ} {x x' : EStateM ε σ α}
    {f f' : α → EStateM ε σ β} {s s' : σ} (hx : outcome view (x' s') = outcome view (x s))
    (hf : ∀ a t t', view t' = view t → outcome view (f' a t') = outcome view (f a t)) :
    outcome view ((x' >>= f') s') = outcome view ((x >>= f) s) := by
  cases hresult : x s with
  | ok a t =>
    cases hresult' : x' s' with
    | ok a' t' =>
      rw [hresult, hresult'] at hx
      obtain ⟨ha, hview⟩ := Prod.mk.inj hx
      obtain rfl := Except.ok.inj ha
      rw [bind_of_ok hresult, bind_of_ok hresult']
      exact hf _ t t' hview
    | error fault' t' =>
      rw [hresult, hresult'] at hx
      cases (Prod.mk.inj hx).1
  | error fault t =>
    cases hresult' : x' s' with
    | ok a' t' =>
      rw [hresult, hresult'] at hx
      cases (Prod.mk.inj hx).1
    | error fault' t' =>
      rw [hresult, hresult'] at hx
      obtain ⟨hfault, hview⟩ := Prod.mk.inj hx
      obtain rfl := Except.error.inj hfault
      rw [bind_of_error hresult, bind_of_error hresult']
      exact Prod.ext rfl hview

namespace Load

variable {globe : Globe} {c : Config} {v v' : Volume} {origin : Position} {q q' : Progress}
  {t : Table}

/-! ### Steps that do not look at check-ins -/

theorem outcome_changeHoldings (f : Holdings → Holdings) (hq : q'.holdings = q.holdings) :
    outcome Progress.holdings (changeHoldings f q') =
      outcome Progress.holdings (changeHoldings f q) :=
  Prod.ext rfl (congrArg f hq)

theorem outcome_openTable {b b' : Basis} (hread : b'.volume.read t = b.volume.read t)
    (hq : q'.holdings = q.holdings) :
    outcome Progress.holdings (openTable b' t q') =
      outcome Progress.holdings (openTable b t q) := by
  unfold openTable
  rw [hread]
  cases b.volume.read t with
  | ok r => exact Prod.ext rfl hq
  | error fault => exact Prod.ext rfl hq

theorem outcome_conclude {σ : Type} (b b' : Basis) (t : Table) (pass : Pass LoadFault σ)
    (keep : σ → Holdings → Holdings) (hq : q'.holdings = q.holdings) :
    outcome Progress.holdings (conclude b' t pass keep q') =
      outcome Progress.holdings (conclude b t pass keep q) := by
  apply outcome_bind
  · exact Prod.ext rfl (congrArg (keep pass.gathered) hq)
  · intro _ q₁ q₁' hq₁
    cases pass.failure with
    | none => exact Prod.ext rfl hq₁
    | some fault => exact Prod.ext rfl hq₁

/-- A table that reads the same is loaded in the same way. -/
theorem outcome_keepTable {α : Type} {b b' : Basis}
    (use : String → EStateM BufferFault (Buffer α) Unit) (get : Holdings → Buffer α)
    (set : Buffer α → Holdings → Holdings) (hread : b'.volume.read t = b.volume.read t)
    (hq : q'.holdings = q.holdings) :
    outcome Progress.holdings (keepTable b' t use get set q') =
      outcome Progress.holdings (keepTable b t use get set q) := by
  apply outcome_bind
  · exact outcome_changeHoldings _ hq
  intro _ q₁ q₁' hq₁
  apply outcome_bind
  · exact outcome_openTable hread hq₁
  intro r q₂ q₂' hq₂
  show outcome Progress.holdings ((conclude b' t (passOver t r use _ (get q₂'.holdings)) set >>=
    fun _ => _) q₂') = _
  rw [hq₂]
  apply outcome_bind
  · exact outcome_conclude b b' t _ set hq₂
  · intro _ q₃ q₃' hq₃
    exact Prod.ext rfl hq₃

theorem outcome_airports (h : v.Redrawn v') (hq : q'.holdings = q.holdings) :
    outcome Progress.holdings (airports ⟨globe, c, v', origin⟩ q') =
      outcome Progress.holdings (airports ⟨globe, c, v, origin⟩ q) := by
  rw [airports_eq_keepTable, airports_eq_keepTable]
  exact outcome_keepTable _ _ _ (h.read_eq (by decide)) hq

theorem outcome_prisons (h : v.Redrawn v') (hq : q'.holdings = q.holdings) :
    outcome Progress.holdings (prisons ⟨globe, c, v', origin⟩ q') =
      outcome Progress.holdings (prisons ⟨globe, c, v, origin⟩ q) := by
  rw [prisons_eq_keepTable, prisons_eq_keepTable]
  exact outcome_keepTable _ _ _ (h.read_eq (by decide)) hq

/-! ### Borders -/

/-- What the first pass comes to: it fails if the border table breaks off before the polygon
    around the position has ended. -/
theorem outcome_reference (b : Basis) (q : Progress) :
    outcome Progress.holdings (reference b q) =
      match if b.findsEarly then none else b.volume.fault? .countries with
      | some fault => (.error (.storage fault), q.holdings)
      | none => (.ok (Search.run b.origin b.volume.border),
          { q.holdings with reference := Search.run b.origin b.volume.border }) := by
  have hends := reference_ensures (b := b) (q := q)
  cases hreference : reference b q with
  | ok k q' =>
    obtain ⟨hnone, rfl, hholdings⟩ := hends.of_ok hreference
    have hfault : (if b.findsEarly then none else b.volume.fault? .countries) = none := by
      rcases hnone with hearly | hnone
      · rw [if_pos hearly]
      · rw [hnone, ite_self]
    rw [hfault]
    exact Prod.ext rfl hholdings
  | error fault q' =>
    obtain ⟨hlate, hfault, hholdings⟩ := hends.of_error hreference
    obtain ⟨storage, hstorage, rfl⟩ := Option.map_eq_some_iff.mp hfault
    rw [hlate, hstorage]
    exact Prod.ext rfl hholdings

theorem conclude_of_none {σ : Type} (b : Basis) (t : Table) {pass : Pass LoadFault σ}
    (h : pass.failure = none) (keep : σ → Holdings → Holdings) (q : Progress) :
    ∃ q', conclude b t pass keep q = .ok () q' ∧ q'.holdings = keep pass.gathered q.holdings := by
  unfold conclude
  rw [h]
  exact ⟨_, rfl, rfl⟩

theorem conclude_of_failure {σ : Type} (b : Basis) (t : Table) {pass : Pass LoadFault σ}
    {fault : LoadFault} (h : pass.failure = some fault) (keep : σ → Holdings → Holdings)
    (q : Progress) : ∃ q', conclude b t pass keep q = .error fault q' ∧
      q'.holdings = keep pass.gathered q.holdings := by
  unfold conclude
  rw [h]
  exact ⟨_, rfl, rfl⟩

/-- What comes of a drawing is kept in any case. -/
def drawn {α : Type} (h : Holdings) (x : Except BufferFault α × Buffer Position) :
    Except LoadFault α × Holdings :=
  (x.1.mapError (.buffer .countries), { h with countries := x.2 })

/-- What the second pass over a border comes to: the whole border is drawn, or it is drawn up to
    where the table breaks off. Then the pass fails there, unless it has failed before. -/
def drawnUpTo (p : Plan) (border : List BorderRecord) (h : Holdings) :
    Option StorageFault → Except LoadFault Summary × Holdings
  | none => drawn h (outcome Outline.buffer (Drawing.run p border (.new h.countries)))
  | some fault =>
    let cut := drawn h (outcome Outline.buffer (Drawing.feed p border (.new h.countries)))
    (cut.1 >>= fun _ => .error (.storage fault), cut.2)

theorem outcome_outline_of_read {b : Basis} {r : Reading} (hread : b.volume.read .countries = .ok r)
    (k : Nat) (q : Progress) : outcome Progress.holdings (outline b k q) =
      drawnUpTo (b.plan k) r.border q.holdings (r.fault.map (.unreadable .countries)) := by
  have hopen : openTable b .countries q = .ok r q := by
    unfold openTable
    rw [hread]
    rfl
  have hpass := passOver_feed (b.plan k) r q.holdings.countries
  unfold outline
  rw [bind_of_ok hopen]
  generalize hgather : passOver .countries r (drawLine (b.plan k)) (fun _ => false)
    (.new q.holdings.countries) = pass at hpass
  show outcome Progress.holdings ((conclude b .countries (passOver .countries r
    (drawLine (b.plan k)) (fun _ => false) (.new q.holdings.countries)) _ >>= fun _ => _) q) = _
  rw [hgather]
  cases hfeed : Drawing.feed (b.plan k) r.border (.new q.holdings.countries) with
  | error fault o =>
    obtain ⟨rfl, hfailure⟩ := hpass.of_error hfeed
    obtain ⟨q₁, hconclude, hholdings⟩ := conclude_of_failure b .countries hfailure
      (fun o h => { h with countries := o.buffer }) q
    rw [bind_of_error hconclude]
    cases r.fault with
    | none =>
      rw [Option.map_none, drawnUpTo, Drawing.run_eq_feed, bind_of_error hfeed]
      exact Prod.ext rfl hholdings
    | some cause =>
      rw [Option.map_some, drawnUpTo, hfeed]
      exact Prod.ext rfl hholdings
  | ok _ o =>
    obtain ⟨rfl, hfailure⟩ := hpass.of_ok hfeed
    cases hbroken : r.fault with
    | some cause =>
      rw [hbroken] at hfailure
      obtain ⟨q₁, hconclude, hholdings⟩ := conclude_of_failure b .countries hfailure
        (fun o h => { h with countries := o.buffer }) q
      rw [bind_of_error hconclude, Option.map_some, drawnUpTo, hfeed]
      exact Prod.ext rfl hholdings
    | none =>
      rw [hbroken] at hfailure
      obtain ⟨q₁, hconclude, hholdings⟩ := conclude_of_none b .countries hfailure
        (fun o h => { h with countries := o.buffer }) q
      rw [bind_of_ok hconclude, Option.map_none, drawnUpTo, Drawing.run_eq_feed,
        bind_of_ok hfeed]
      -- what the border ends with goes into the buffer that is there by then
      have hkept : ∀ buffer, ({ q₁.holdings with countries := buffer } : Holdings) =
          { q.holdings with countries := buffer } := by
        intro buffer
        rw [hholdings]
      cases Drawing.finish (b.plan k) pass.gathered with
      | ok s o' => exact Prod.ext rfl (hkept o'.buffer)
      | error fault o' => exact Prod.ext rfl (hkept o'.buffer)

theorem outcome_outline (b : Basis) (k : Nat) (q : Progress) :
    outcome Progress.holdings (outline b k q) =
      drawnUpTo (b.plan k) b.volume.border q.holdings (b.volume.fault? .countries) := by
  cases hread : b.volume.read .countries with
  | ok r => rw [outcome_outline_of_read hread, Volume.border_eq hread, (Volume.of_read hread).2]
  | error fault =>
    -- a table that cannot be opened has no borders
    have hfault : b.volume.fault? .countries = some fault := by
      unfold Volume.fault?
      rw [hread]
    have hborder : b.volume.border = [] := by
      unfold Volume.border
      rw [hread]
    have hopen : openTable b .countries q = .error (.storage fault) q := by
      unfold openTable
      rw [hread]
      rfl
    rw [hfault, hborder]
    unfold outline
    rw [bind_of_error hopen]
    rfl

/-- A pass over a border that nothing tells apart comes to the same. -/
theorem drawnUpTo_eq {fault : Option StorageFault} {border border' : List BorderRecord}
    (h : Retraces fault.isSome border border') (p : Plan) (kept : Holdings) :
    drawnUpTo p border' kept fault = drawnUpTo p border kept fault := by
  cases fault with
  | none => exact congrArg (drawn kept) (h.run rfl p kept.countries)
  | some fault =>
    unfold drawnUpTo
    rw [h.feed rfl]

/-- The borders are loaded in the same way. -/
theorem outcome_countries (h : v.Redrawn v') (hq : q'.holdings = q.holdings) :
    outcome Progress.holdings (countries ⟨globe, c, v', origin⟩ q') =
      outcome Progress.holdings (countries ⟨globe, c, v, origin⟩ q) := by
  have hborder := h.retraces
  apply outcome_bind
  · exact outcome_changeHoldings _ hq
  intro _ q₁ q₁' hq₁
  apply outcome_bind
  · rw [outcome_reference, outcome_reference, hq₁]
    simp only [h.fault?_eq, hborder.reference]
    -- where the first pass ends matters only if the table breaks off
    cases hfault : v.fault? .countries with
    | none => rw [ite_self, ite_self]
    | some fault =>
      rw [hfault] at hborder
      unfold Basis.findsEarly
      simp only [hborder.found rfl]
  intro k q₂ q₂' hq₂
  rw [outcome_outline, outcome_outline, hq₂]
  simp only [h.fault?_eq]
  exact drawnUpTo_eq hborder _ _

/-! ### All tables -/

theorem outcome_when {α : Type} (enabled : Bool) {load load' : Load α} (otherwise : α)
    (hload : outcome Progress.holdings (load' q') = outcome Progress.holdings (load q))
    (hq : q'.holdings = q.holdings) :
    outcome Progress.holdings (when enabled load' otherwise q') =
      outcome Progress.holdings (when enabled load otherwise q) := by
  cases enabled with
  | true => exact hload
  | false => exact Prod.ext rfl hq

theorem outcome_reportCountries (h : v.Redrawn v') (r : LoadReport)
    (hq : q'.holdings = q.holdings) :
    outcome Progress.holdings (reportCountries ⟨globe, c, v', origin⟩ r q') =
      outcome Progress.holdings (reportCountries ⟨globe, c, v, origin⟩ r q) := by
  apply outcome_bind
  · exact outcome_countries h hq
  intro borders q₁ q₁' hq₁
  show ((.ok { r with
      reference := q₁'.holdings.reference
      borders := borders
      vertices := q₁'.holdings.countries.size }, q₁'.holdings) :
    Except LoadFault LoadReport × Holdings) = _
  rw [hq₁]
  rfl

/-- A load of all tables comes to the same. -/
theorem outcome_all (h : v.Redrawn v') (hq : q'.holdings = q.holdings) :
    outcome Progress.holdings (all ⟨globe, c, v', origin⟩ q') =
      outcome Progress.holdings (all ⟨globe, c, v, origin⟩ q) := by
  apply outcome_bind
  · exact outcome_when _ _ (outcome_airports h hq) hq
  intro airports q₁ q₁' hq₁
  apply outcome_bind
  · exact outcome_when _ _ (outcome_reportCountries h _ hq₁) hq₁
  intro report q₂ q₂' hq₂
  apply outcome_bind
  · exact outcome_when _ _ (outcome_prisons h hq₂) hq₂
  intro prisons q₃ q₃' hq₃
  exact Prod.ext rfl hq₃

end Load

/-! ### Guards -/

namespace Guard

variable {v v' : Volume}

/-- A load leaves the same behind and counts the same, or it fails with the same fault. -/
theorem ingestion_of_redrawn (h : v.Redrawn v') (g : Guard) :
    (g.ingestion v').holdings = (g.ingestion v).holdings ∧
      (g.ingestion v').outcome = (g.ingestion v).outcome := by
  have hseen : ∀ w : Volume, ((g.ingestion w).outcome, (g.ingestion w).holdings) =
      outcome Load.Progress.holdings (Load.all ⟨g.globe, g.config, w, g.position⟩ ⟨g.holdings, []⟩) := by
    intro w
    unfold ingestion
    cases Load.all ⟨g.globe, g.config, w, g.position⟩ ⟨g.holdings, []⟩ <;> rfl
  have hsame := (hseen v').trans ((Load.outcome_all h rfl).trans (hseen v).symm)
  exact ⟨congrArg Prod.snd hsame, congrArg Prod.fst hsame⟩

theorem loadAndJudge_of_redrawn (h : v.Redrawn v') (g : Guard) :
    (g.loadAndJudge v').guard = (g.loadAndJudge v).guard ∧
      (g.loadAndJudge v').verdict = (g.loadAndJudge v).verdict := by
  obtain ⟨hholdings, houtcome⟩ := ingestion_of_redrawn h g
  unfold loadAndJudge
  dsimp only
  rw [hholdings, houtcome]
  cases (g.ingestion v).outcome <;> exact ⟨rfl, rfl⟩

theorem start_of_redrawn (h : v.Redrawn v') (g : Guard) : g.start v' = g.start v := by
  unfold start
  rw [h.mounted_eq]

theorem evaluate_of_redrawn (h : v.Redrawn v') (ready : Bool) (g : Guard) :
    (g.evaluate v' ready).guard = (g.evaluate v ready).guard ∧
      (g.evaluate v' ready).verdict = (g.evaluate v ready).verdict := by
  have hstarted : g.started v' = g.started v := by
    unfold started
    rw [start_of_redrawn h]
  unfold evaluate
  dsimp only
  rw [hstarted]
  cases (g.started v).verdictBefore? with
  | some verdict => exact ⟨rfl, rfl⟩
  | none =>
    dsimp only
    split
    · exact loadAndJudge_of_redrawn h (g.started v)
    · exact ⟨rfl, rfl⟩

/-- A command makes the same guard of a guard, and gets the same reply. -/
theorem obey_of_redrawn (h : v.Redrawn v') (g : Guard) (command : Command) :
    (g.obey v' command).guard = (g.obey v command).guard ∧
      (g.obey v' command).reply = (g.obey v command).reply := by
  cases command with
  | start => exact ⟨start_of_redrawn h g, rfl⟩
  | locate p => exact ⟨rfl, rfl⟩
  | evaluate ready =>
    obtain ⟨hguard, hverdict⟩ := evaluate_of_redrawn h ready g
    exact ⟨hguard, congrArg Reply.verdict hverdict⟩
  | ingest =>
    obtain ⟨hholdings, houtcome⟩ := ingestion_of_redrawn h g
    refine ⟨?_, congrArg Reply.loaded houtcome⟩
    show ({ g with holdings := (g.ingestion v').holdings } : Guard) = _
    rw [hholdings]
    rfl

/-- Two runs give the same commands, on volumes that are redrawn. -/
def RunsRedrawn (run run' : List (Volume × Command)) : Prop :=
  List.Forall₂ (fun step step' => step.1.Redrawn step'.1 ∧ step'.2 = step.2) run run'

theorem after_of_redrawn {run run' : List (Volume × Command)} (hrun : RunsRedrawn run run')
    (g : Guard) : g.after run' = g.after run := by
  induction hrun generalizing g with
  | nil => rfl
  | cons hstep _ ih =>
    obtain ⟨hvolume, hcommand⟩ := hstep
    unfold after
    rw [hcommand, (obey_of_redrawn hvolume g _).1]
    exact ih _

theorem replies_of_redrawn {run run' : List (Volume × Command)} (hrun : RunsRedrawn run run')
    (g : Guard) : (g.responses run').map (·.reply) = (g.responses run).map (·.reply) := by
  induction hrun generalizing g with
  | nil => rfl
  | @cons step step' _ _ hstep _ ih =>
    obtain ⟨w, command⟩ := step
    obtain ⟨w', command'⟩ := step'
    obtain ⟨hvolume, hcommand⟩ := hstep
    obtain rfl : command' = command := hcommand
    obtain ⟨hguard, hreply⟩ := obey_of_redrawn hvolume g command'
    simp only [responses, List.map_cons, hguard, hreply, ih]

/-- Only geometry matters in the border table. From two variants of it a load of the borders
    comes to the same: it fails for the same reason, or it finds the same polygon around the
    position and counts the same, and either way the same vertices are kept. So two runs that
    give the same commands on variants get the same replies, verdicts among them, and end with
    the same guard. -/
theorem only_geometry_matters (globe : Globe) (c : Config) {v v' : Volume} (h : v.Redrawn v')
    (origin : Position) (q : Load.Progress) {run run' : List (Volume × Command)} (hrun : RunsRedrawn run run')
    (g : Guard) :
    outcome Load.Progress.holdings (Load.countries ⟨globe, c, v', origin⟩ q) =
        outcome Load.Progress.holdings (Load.countries ⟨globe, c, v, origin⟩ q) ∧
      g.after run' = g.after run ∧
      (g.responses run').map (·.reply) = (g.responses run).map (·.reply) :=
  ⟨Load.outcome_countries h rfl, after_of_redrawn hrun g, replies_of_redrawn hrun g⟩

/-- The enclave with a delimiter first, whose line ends in another way, and with the first
    vertex of the country once more at its end. -/
def enclaveRedrawn : Volume :=
  Volume.empty.put .countries (.text "#\r\n1,1\n5,1\n5,5\n1,5\n1,1\n#\n2,2\n4,2\n4,4\n2,4")

theorem redrawn_enclave : enclave.Redrawn enclaveRedrawn := by
  let country := ["1,1", "5,1", "5,5", "1,5"].map some
  let hole := ["#", "2,2", "4,2", "4,4", "2,4"].map some
  have hvertex : Record.border? "1,1".toList =
      some (.vertex ⟨Record.degrees ['1'], Record.degrees ['1']⟩) := rfl
  have hback : VariedRows (country ++ hole) (country ++ some "1,1" :: hole) := by
    apply VariedRows.back hvertex
    · rfl
    · exact Or.inr ⟨"#", _, rfl, rfl⟩
  have hfirst : VariedRows ([] ++ (country ++ some "1,1" :: hole))
      ([] ++ some "#" :: (country ++ some "1,1" :: hole)) :=
    .delimiter _ rfl rfl
  have hending := Content.Varied.ending ['#']
    "1,1\n5,1\n5,5\n1,5\n1,1\n#\n2,2\n4,2\n4,4\n2,4".toList
  have hredrawn : Content.Redrawn (.text "1,1\n5,1\n5,5\n1,5\n#\n2,2\n4,2\n4,4\n2,4")
      (.text "#\r\n1,1\n5,1\n5,5\n1,5\n1,1\n#\n2,2\n4,2\n4,4\n2,4") := by
    apply Relation.EqvGen.trans _ (.text "1,1\n5,1\n5,5\n1,5\n1,1\n#\n2,2\n4,2\n4,4\n2,4")
    · exact .rel _ _ (.rows (by decide +kernel) (by decide +kernel) hback)
    · apply Relation.EqvGen.trans _ (.text "#\n1,1\n5,1\n5,5\n1,5\n1,1\n#\n2,2\n4,2\n4,4\n2,4")
      · exact .rel _ _ (.rows (by decide +kernel) (by decide +kernel) hfirst)
      · exact .rel _ _ hending
  refine ⟨rfl, ?_, Or.inr ⟨_, _, rfl, rfl, hredrawn, ?_, ?_, ?_⟩⟩
  · intro t ht
    cases t <;> first | exact absurd rfl ht | rfl
  · decide +kernel
  · decide +kernel
  · have hall : ∀ r ∈ enclave.border, (match r with
        | .vertex p => !p.lat.isNaN && !p.lon.isNaN
        | .delimiter => true) = true := by decide +kernel
    intro p hp
    simpa using hall _ hp

/-- Between the two borders flight is forbidden, however they are written. -/
theorem only_geometry_matters_enclave :
    let g := watchful ⟨1.5, 3.0⟩
    let b : Load.Basis := ⟨g.globe, g.config, enclave, g.position⟩
    let b' : Load.Basis := ⟨g.globe, g.config, enclaveRedrawn, g.position⟩
    enclave.Redrawn enclaveRedrawn ∧
      RunsRedrawn [(enclave, .evaluate true)] [(enclaveRedrawn, .evaluate true)] ∧
      outcome Load.Progress.holdings (Load.countries b' ⟨g.holdings, []⟩) =
        outcome Load.Progress.holdings (Load.countries b ⟨g.holdings, []⟩) ∧
      (g.evaluate enclaveRedrawn true).verdict = .deny .country "inside banned country" := by
  intro g b b'
  have hrun : RunsRedrawn [(enclave, .evaluate true)] [(enclaveRedrawn, .evaluate true)] :=
    .cons ⟨redrawn_enclave, rfl⟩ .nil
  obtain ⟨houtcome, -, hreplies⟩ :=
    only_geometry_matters g.globe g.config redrawn_enclave g.position ⟨g.holdings, []⟩ hrun g
  have hverdict : (g.evaluate enclave true).verdict = .deny .country "inside banned country" := by
    decide +kernel
  refine ⟨redrawn_enclave, hrun, houtcome, ?_⟩
  rw [← hverdict]
  exact Reply.verdict.inj (List.cons.inj hreplies).1

end Guard

end Airspace
