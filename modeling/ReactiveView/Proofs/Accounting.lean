import ReactiveView.Proofs.Metering
import ReactiveView.Proofs.Moments

namespace ReactiveView

variable {σ : Type}

theorem Application.Offers.grows {app : Application}
    {change : Store → Except Failure (List String) × Store} (h : app.Offers change) {s : Store}
    {m : Meter} (hm : s.account = some m) :
    ∃ later, (change s).2.account = some later ∧ m.Grows later (Store.sizeOfState s.state)
      (Store.sizeOfState (change s).2.state - Store.sizeOfState s.state) := by
  rcases h.eq_transact s with ⟨label, mutations, hc⟩ | ⟨failure, hc⟩
  · rw [hc]
    exact Store.transact_grows hm label mutations
  · rw [hc]
    refine ⟨m, hm, ?_⟩
    rw [Int.sub_self]
    exact .refl m

namespace Core

def size (core : Core σ) : Int := Store.sizeOfState core.store.state + core.tree.size

/-- A core is charged to a meter, which holds just its size as long as the application has not
ended. -/
structure Exact (app : Application) (core : Core σ) (m : Meter) : Prop where
  app_eq : core.app = app
  account : core.store.account = some m
  usage : core.fatal = none → m.usage = core.size

theorem Exact.meter_eq {app : Application} {core : Core σ} {m : Meter} (h : core.Exact app m) :
    core.meter = m := by
  rw [meter, h.account]
  rfl

theorem Exact.struck {app : Application} {core : Core σ} {m : Meter} (h : core.Exact app m)
    {α : Type} (outcome : Except Failure α) : (core.struck outcome).Exact app m := by
  refine ⟨(struck_app _ _).trans h.app_eq, ?_, fun hl => ?_⟩
  · rw [struck_store]
    exact h.account
  · rw [size, struck_store, struck_tree]
    exact h.usage (fatal_of_struck _ _ hl)

theorem Exact.change {app : Application} {core : Core σ} {m : Meter} (h : core.Exact app m)
    {change : Store → Except Failure (List String) × Store} (hoffers : app.Offers change) :
    ∃ later, (change core.store).2.account = some later ∧ m.Follows later ∧
      (core.fatal = none →
        later.usage = Store.sizeOfState (change core.store).2.state + core.tree.size) := by
  obtain ⟨later, hl, hgrows⟩ := hoffers.grows h.account
  refine ⟨later, hl, hgrows.follows, fun hlive => ?_⟩
  have htree : 0 ≤ core.tree.size := Node.sizeOfAll_nonneg core.tree.nodes
  have hbefore : m.usage = core.size := h.usage hlive
  rw [size] at hbefore
  have hafter := hgrows.usage (by omega)
  omega

theorem exact_law {app : Application} (happ : app.Sound) :
    Law fun core later : Core σ =>
      ∀ m, core.Exact app m → ∃ next, later.Exact app next ∧ m.Follows next where
  trans a b c h h' m hm := by
    obtain ⟨next, hnext, hfollows⟩ := h m hm
    obtain ⟨last, hlast, hfollows'⟩ := h' next hnext
    exact ⟨last, hlast, hfollows.trans hfollows'⟩
  alike core later h m hm := by
    refine ⟨m, ⟨h.app.trans hm.app_eq, h.store ▸ hm.account, fun hl => ?_⟩, .refl m⟩
    rw [size, h.store, h.tree]
    exact hm.usage (h.fatal ▸ hl)
  strike core cause m hm := ⟨m, ⟨hm.app_eq, hm.account, fun hl => nomatch hl⟩, .refl m⟩
  revise core change hoffers m hm := by
    obtain ⟨changed, hc, hfollows, husage⟩ := hm.change (hm.app_eq ▸ hoffers)
    obtain ⟨rfl, -, -⟩ := hm
    rcases core.revise_cases change with ⟨failure, store, hchange, hr⟩ |
      ⟨dirty, store, pass, failure, hchange, rfl, ho, hr⟩ |
      ⟨dirty, store, pass, rendering, hchange, rfl, ho, hr⟩
    · rw [hchange] at hc husage
      have hexact : Exact core.app { core with store } changed := ⟨rfl, hc, husage⟩
      rw [hr]
      exact ⟨changed, hexact.struck _, hfollows⟩
    · rw [hchange] at hc
      dsimp only at hc
      obtain ⟨later, hl, hpass, -⟩ :=
        View.reconcile_metered core.app store.state core.tree dirty changed
      rw [← hc] at hl
      obtain ⟨cause, rfl⟩ := View.error_of_reconcile happ.supplied ho
      rw [hr]
      exact ⟨later, ⟨rfl, hl, fun hlive => nomatch hlive⟩, hfollows.trans hpass⟩
    · rw [hchange] at hc husage
      dsimp only at hc husage
      obtain ⟨later, hl, hpass, hgrows⟩ :=
        View.reconcile_metered core.app store.state core.tree dirty changed
      rw [← hc] at hl hgrows
      rw [hr]
      refine ⟨later, ⟨rfl, hl, fun hlive => ?_⟩, hfollows.trans hpass⟩
      have hchanged := husage hlive
      have hlast := (hgrows rendering ho).usage (by omega)
      rw [hlast, hchanged, size]
      dsimp only [struck, World.afterPass]
      omega

end Core

theorem Launch.exact_of_start {app : Application} {limits : Limits} {r : Renderer σ} {sink : σ}
    {world : World σ} (h : (Launch.start app limits r sink).outcome = .ok world) :
    ∃ m, world.2.Exact app m ∧ m.Sound ∧ m.limit = limits.memory := by
  obtain ⟨store, pass, rendering, hc, rfl, hp, happ, hstore, htree, -⟩ := Launch.start_ok h
  obtain ⟨charged, rfl, ha⟩ := Store.create_grows hc
  obtain ⟨later, hl, hgrows⟩ := View.materialize_metered hp
  have hsize := Int.natCast_nonneg (Store.sizeOfState app.initialState)
  have hcharge : Meter.Grows _ charged 0 _ := .charge hsize ha
  have hsound := Meter.sound_of_allocate (by dsimp only; omega) ha
  have hlimit := (hcharge.follows.trans hgrows.follows).limit_eq
  refine ⟨later, ⟨happ, by rw [hstore]; exact hl, fun _ => ?_⟩, hgrows.follows.sound hsound, hlimit⟩
  have hcharged := hcharge.usage (Int.le_refl 0)
  dsimp only at hcharged
  rw [hgrows.usage (by omega), hcharged, Core.size, hstore, htree]
  dsimp only
  omega

namespace World

/-- After any calls, as long as the application has not ended, the bytes in use are those of the
committed state and of the nodes of the view. At every moment, ended or not, they lie within the limit
and do not exceed the peak, and charges and refunds that never lower the peak lead from each moment to
the later ones. -/
theorem run_metered {p : Program} {app : Application} (hload : p.load = .ok app) {limits : Limits}
    {r : Renderer σ} {sink : σ} {world : World σ}
    (hstart : (Launch.start app limits r sink).outcome = .ok world) (depth : Nat)
    (cs : List Call) :
    ((run r depth world cs).2.fatal = none → (run r depth world cs).2.meter.usage =
      Store.sizeOfState (run r depth world cs).2.store.state + (run r depth world cs).2.tree.size) ∧
    (∀ core ∈ world.2 :: history r depth world cs,
      core.meter.usage ≤ limits.memory.most ∧ core.meter.usage ≤ core.meter.peak) ∧
    (world.2 :: history r depth world cs).Pairwise fun earlier later =>
      earlier.meter.Follows later.meter ∧ earlier.meter.peak ≤ later.meter.peak := by
  have hlaw := Core.exact_law (σ := σ) (Program.sound_of_load hload)
  have hrun := run_of_law hlaw r depth world cs
  obtain ⟨m, hexact, hsound, hlimit⟩ := Launch.exact_of_start hstart
  have hpairs := (run_along hlaw r depth world cs).pairwise hlaw.trans
  have hfrom : ∀ core ∈ world.2 :: history r depth world cs,
      ∃ next, core.Exact app next ∧ m.Follows next := by
    intro core hc
    rcases List.mem_cons.1 hc with rfl | hc
    · exact ⟨m, hexact, .refl m⟩
    · exact (List.pairwise_cons.1 hpairs).1 core (List.mem_append_left _ hc) m hexact
  refine ⟨fun hlive => ?_, fun core hc => ?_, ?_⟩
  · obtain ⟨last, hlast, -⟩ := hrun m hexact
    rw [hlast.meter_eq]
    exact hlast.usage hlive
  · obtain ⟨next, hnext, hfollows⟩ := hfrom core hc
    have hbounds := hfollows.sound hsound
    rw [hnext.meter_eq, ← hlimit, ← hfollows.limit_eq]
    exact ⟨hbounds.limited, hbounds.peaked⟩
  · have hinner : (world.2 :: history r depth world cs).Pairwise _ :=
      (List.pairwise_append.1 hpairs).1
    refine hinner.imp_of_mem fun {earlier later} he _ h => ?_
    obtain ⟨first, hfirst, -⟩ := hfrom earlier he
    obtain ⟨next, hnext, hfollows⟩ := h first hfirst
    rw [hfirst.meter_eq, hnext.meter_eq]
    exact ⟨hfollows, hfollows.peak_le⟩

def echo : Renderer Nat where
  mount _ _ n := (.ok (), n)
  apply _ _ := .consult fun n =>
    if n = 0 then .update (· + 1) (.execute "raise" fun _ => .done) else .done

theorem counter_metered :
    ∃ world, (Launch.start counter.application {} echo 0).outcome = .ok world ∧
      (run echo nestingLimit world [.execute "raise"]).2.store.state.get? "count" =
        some (.int 2) ∧
      (run echo nestingLimit world [.execute "raise"]).2.meter.usage =
        Store.sizeOfState (run echo nestingLimit world [.execute "raise"]).2.store.state +
          (run echo nestingLimit world [.execute "raise"]).2.tree.size := by
  obtain ⟨world, hstart, hchecks⟩ := exists_ok_of_any
    (Launch.start counter.application {} echo 0).outcome
    (fun world =>
      (run echo nestingLimit world [.execute "raise"]).2.store.state.get? "count" =
        some (.int 2) ∧ (run echo nestingLimit world [.execute "raise"]).2.fatal = none)
    (by decide +kernel)
  obtain ⟨hcount, hlive⟩ := of_decide_eq_true hchecks
  exact ⟨world, hstart, hcount,
    (run_metered counter_loads hstart nestingLimit [.execute "raise"]).1 hlive⟩

end World

end ReactiveView
