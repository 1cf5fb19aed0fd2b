import Mathlib.Logic.Relation
import ReactiveView.Proofs.Incremental
import ReactiveView.Proofs.Moments

namespace ReactiveView

variable {σ : Type}

namespace Application

def Commits (app : Application) (s : State) (dirty : List String) (t : State) : Prop :=
  ∃ change store, app.Offers change ∧ store.state = s ∧ (change store).1 = .ok dirty ∧
    (change store).2.state = t

/-- Commits lead from one state to another, and none of them reports one of the names. -/
def Silent (app : Application) (names : List String) : State → State → Prop :=
  Relation.ReflTransGen fun s t => ∃ dirty, app.Commits s dirty t ∧ ∀ x ∈ names, x ∉ dirty

theorem Silent.refl (app : Application) (names : List String) (s : State) : app.Silent names s s :=
  Relation.ReflTransGen.refl

theorem Silent.trans (app : Application) (names : List String) (s t u : State)
    (h : app.Silent names s t) (h' : app.Silent names t u) : app.Silent names s u :=
  Relation.ReflTransGen.trans h h'

theorem Commits.silent {app : Application} {s t : State} {dirty names : List String}
    (h : app.Commits s dirty t) (hnames : ∀ x ∈ names, x ∉ dirty) : app.Silent names s t :=
  Relation.ReflTransGen.single ⟨dirty, h, hnames⟩

/-- No facet of the view reads a variable that holds a binary64 number. -/
def ReadsNoFloat (app : Application) (s : State) : Prop :=
  ∀ n ∈ app.nodes, ∀ facet ∈ n.facets, ∀ name ∈ n.readsIn facet,
    (s.get? name).map Value.kind ≠ some .float

instance (app : Application) (s : State) : Decidable (app.ReadsNoFloat s) :=
  inferInstanceAs (Decidable (∀ n ∈ app.nodes, ∀ facet ∈ n.facets, ∀ name ∈ n.readsIn facet,
    (s.get? name).map Value.kind ≠ some .float))

theorem Commits.unchanged {app : Application} {s t : State} {dirty : List String}
    (h : app.Commits s dirty t) {name : String} (hn : name ∉ dirty) :
    Value.Unchanged (s.get? name) (t.get? name) := by
  obtain ⟨change, store, hoffers, rfl, hok, rfl⟩ := h
  rcases hoffers.eq_transact store with ⟨label, mutations, hc⟩ | ⟨failure, hc⟩
  · rw [hc] at hok ⊢
    exact Store.unchanged_of_transact hok hn
  · rw [hc] at hok
    cases hok

theorem eq_of_unchanged {v w : Option Value} (h : Value.Unchanged v w)
    (hw : w.map Value.kind ≠ some .float) : v = w := by
  cases v with
  | none =>
    cases w with
    | none => rfl
    | some w => exact h.elim
  | some v =>
    cases w with
    | none => exact h.elim
    | some w =>
      rcases h with rfl | h
      · rfl
      · rcases Value.near_of_identical h with rfl | ⟨x, y, rfl, rfl, -⟩
        · rfl
        · exact absurd rfl hw

theorem Silent.get?_eq {app : Application} {names : List String} {s t : State}
    (h : app.Silent names s t) {name : String} (hn : name ∈ names)
    (ht : (t.get? name).map Value.kind ≠ some .float) : s.get? name = t.get? name := by
  induction h with
  | refl => rfl
  | tail _ hlast ih =>
    obtain ⟨dirty, hcommit, hquiet⟩ := hlast
    have heq := eq_of_unchanged (hcommit.unchanged (hquiet name hn)) ht
    rw [← heq] at ht ⊢
    exact ih ht

end Application

theorem Tree.Tracks.agreeOn {app : Application} {s : State} {tree : Tree}
    (h : tree.Tracks app.Silent app s) (hs : app.ReadsNoFloat s) : tree.Tracks AgreeOn app s := by
  refine ((List.forall₂_and_left _ _).2 ⟨hs, h⟩).imp fun n node hn => ?_
  obtain ⟨hreads, hnode⟩ := hn
  refine ⟨hnode.blank, hnode.facets, fun facet hf => ?_⟩
  obtain ⟨seen, value, hsilent, hres, hstands⟩ := hnode.shows facet hf
  exact ⟨seen, value, fun x hx => hsilent.get?_eq hx (hreads facet hf x hx), hres, hstands⟩

/-- As long as an application has not ended, its view shows it. -/
structure Core.Coherent (app : Application) (core : Core σ) : Prop where
  app_eq : core.app = app
  tracks : core.fatal = none → core.tree.Tracks app.Silent app core.store.state

theorem Core.coherent_law {app : Application} (happ : app.Sound) :
    Core.Law fun core later : Core σ => core.Coherent app → later.Coherent app where
  trans _ _ _ h h' hc := h' (h hc)
  alike core later h hc := by
    refine ⟨h.app.trans hc.app_eq, fun hl => ?_⟩
    rw [h.tree, h.store]
    exact hc.tracks (h.fatal ▸ hl)
  strike core cause hc := ⟨hc.app_eq, fun hl => nomatch hl⟩
  revise core change hoffers hc := by
    obtain ⟨rfl, htracks⟩ := hc
    rcases core.revise_cases change with ⟨failure, store, hchange, hr⟩ |
      ⟨dirty, store, pass, failure, hchange, rfl, ho, hr⟩ |
      ⟨dirty, store, pass, rendering, hchange, rfl, ho, hr⟩
    -- The change fails: the state is as it was, and so is the view.
    · have hstate := hoffers.state_of_error (congrArg Prod.fst hchange)
      rw [hchange] at hstate
      rw [hr]
      refine ⟨struck_app _ _, fun hl => ?_⟩
      rw [struck_tree, struck_store, hstate]
      exact htracks (fatal_of_struck _ { core with store } hl)
    -- The pass fails, which ends the application.
    · obtain ⟨cause, rfl⟩ := View.error_of_reconcile happ.supplied ho
      rw [hr]
      exact ⟨rfl, fun hl => nomatch hl⟩
    · have hcommits : core.app.Commits core.store.state dirty store.state :=
        ⟨change, core.store, hoffers, rfl, congrArg Prod.fst hchange,
          congrArg (fun result => result.2.state) hchange⟩
      rw [hr]
      exact ⟨rfl, fun hl => View.reconcile_tracks (Application.Silent.refl core.app)
        (Application.Silent.trans core.app) happ.index (htracks hl)
        (fun names hclean => hcommits.silent hclean) ho⟩

theorem Launch.coherent_of_start {app : Application} {limits : Limits} {r : Renderer σ} {sink : σ}
    {world : World σ} (h : (Launch.start app limits r sink).outcome = .ok world) :
    world.2.Coherent app := by
  obtain ⟨store, pass, rendering, -, rfl, hp, happ, hstore, htree, -⟩ := Launch.start_ok h
  refine ⟨happ, fun _ => ?_⟩
  rw [htree, hstore]
  exact View.materialize_tracks (Application.Silent.refl app) hp

namespace World

/-- After any calls, as long as the application has not ended, every facet of its view shows what it
resolves to in a state since which no commit has reported a variable that it reads. If the view reads
no binary64 number, a build for the committed state succeeds and the view agrees with it. -/
theorem run_coherent {p : Program} {app : Application} (hload : p.load = .ok app) {limits : Limits}
    {r : Renderer σ} {sink : σ} {world : World σ}
    (hstart : (Launch.start app limits r sink).outcome = .ok world) (depth : Nat) (cs : List Call)
    (hlive : (run r depth world cs).2.fatal = none) :
    let core := (run r depth world cs).2
    core.tree.Tracks app.Silent app core.store.state ∧
      (app.ReadsNoFloat core.store.state →
        ∃ fresh, (View.materialize app core.store.state none).outcome = .ok fresh ∧
          core.tree.Agrees fresh.tree) := by
  have hlaw := Core.coherent_law (σ := σ) (Program.sound_of_load hload)
  have hcoherent := run_of_law hlaw r depth world cs (Launch.coherent_of_start hstart)
  have htracks := hcoherent.tracks hlive
  exact ⟨htracks, fun hreads => View.exists_materialize_agrees (htracks.agreeOn hreads)⟩

theorem counter_coherent :
    ∃ world, (Launch.start counter.application {} Renderer.silent ()).outcome = .ok world ∧
      ∃ fresh, (View.materialize counter.application
        (run Renderer.silent nestingLimit world [.execute "raise"]).2.store.state none).outcome =
          .ok fresh ∧
        (run Renderer.silent nestingLimit world [.execute "raise"]).2.tree.Agrees fresh.tree := by
  obtain ⟨world, hstart, hchecks⟩ := exists_ok_of_any
    (Launch.start counter.application {} Renderer.silent ()).outcome
    (fun world => (run Renderer.silent nestingLimit world [.execute "raise"]).2.fatal = none ∧
      counter.application.ReadsNoFloat
        (run Renderer.silent nestingLimit world [.execute "raise"]).2.store.state)
    (by decide +kernel)
  obtain ⟨hlive, hreads⟩ := of_decide_eq_true hchecks
  exact ⟨world, hstart, (run_coherent counter_loads hstart nestingLimit _ hlive).2 hreads⟩

end World

def thermometer : Program where
  app := "Thermometer"
  version := .ofInt 1
  state := [("level", .float .zero), ("warmings", .int 0)]
  view := some ⟨"label", .ofList
    [("visible", .expr (.binary (.relational .gt) (.ident "level") (.literal (.float .zero))))], [],
    none⟩
  actions := [⟨"warm",
    [⟨"level", .literal (.float (.signed false ⟨1, by decide⟩))⟩,
      ⟨"warmings", .binary (.arithmetic .add) (.ident "warmings") (.literal (.int 1))⟩]⟩]

/-- The level rises by the least positive binary64 number. The count of warmings makes the commit take
effect, but the level is not reported, so the label stays hidden. -/
theorem thermometer_not_shown :
    ∃ world fresh, thermometer.load = .ok thermometer.application ∧
      (Launch.start thermometer.application {} Renderer.silent ()).outcome = .ok world ∧
      (World.run Renderer.silent World.nestingLimit world [.execute "warm"]).2.fatal = none ∧
      (View.materialize thermometer.application
        (World.run Renderer.silent World.nestingLimit world [.execute "warm"]).2.store.state
          none).outcome = .ok fresh ∧
      (World.run Renderer.silent World.nestingLimit world [.execute "warm"]).2.tree ≠ fresh.tree := by
  obtain ⟨world, hstart, hchecks⟩ := exists_ok_of_any
    (Launch.start thermometer.application {} Renderer.silent ()).outcome
    (fun world =>
      let core := (World.run Renderer.silent World.nestingLimit world [.execute "warm"]).2
      core.fatal = none ∧ (View.materialize thermometer.application core.store.state
        none).outcome.toOption.any fun fresh => core.tree ≠ fresh.tree)
    (by decide +kernel)
  obtain ⟨hlive, hbuild⟩ := of_decide_eq_true hchecks
  obtain ⟨fresh, hfresh, hne⟩ := exists_ok_of_any _ _ hbuild
  exact ⟨world, fresh, Program.load_eq_ok_iff.2 ⟨by decide +kernel, rfl⟩, hstart, hlive, hfresh,
    of_decide_eq_true hne⟩

end ReactiveView
