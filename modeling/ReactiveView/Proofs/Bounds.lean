import ReactiveView.Proofs.Moments
import ReactiveView.Proofs.Names
import ReactiveView.Proofs.Noninterference
import ReactiveView.Proofs.Ranges

namespace ReactiveView

def Output.InRange : Output → Prop
  | .value v => v.InRange
  | .color _ => True

def FacetValue.InRange : FacetValue → Prop
  | .output o => o.InRange
  | .text _ | .visible _ => True

structure Node.InRange (node : Node) : Prop where
  value : ∀ v, node.value = some v → v.InRange
  props : ∀ name o, node.props.get? name = some o → o.InRange

def PropValue.InRange : PropValue → Prop
  | .literal v => v.InRange
  | .expr e => e.InRange
  | .color _ | .ident _ => True

structure Program.InRange (p : Program) : Prop where
  state : ∀ entry ∈ p.state, entry.2.InRange
  actions : ∀ a ∈ p.actions, ∀ m ∈ a.mutations, m.expr.InRange
  props : ∀ n ∈ p.nodes, ∀ entry ∈ n.node.props.entries, entry.2.InRange

structure Application.InRange (app : Application) : Prop where
  state : app.initialState.InRange
  actions : ∀ name a, app.actions.get? name = some a → ∀ m ∈ a.mutations, m.expr.InRange
  props : ∀ n ∈ app.nodes, ∀ name p, n.node.props.get? name = some p → p.InRange

theorem Program.InRange.application {p : Program} (h : p.InRange) : p.application.InRange where
  state name v hv := h.state _ (Table.mem_of_get?_ofList hv)
  actions name a ha := by
    obtain ⟨listed, hl, heq⟩ := List.mem_map.1 (Table.mem_of_get?_ofList ha)
    cases heq
    exact h.actions a hl
  props n hn name value hget := h.props n hn _ (Table.mem_entries hget)

namespace Store

variable {label : String} {mutations : List Mutation}
  (hexprs : ∀ m ∈ mutations, m.expr.InRange)

include hexprs

theorem inRange_steps {w : Working} (hw : w.state.InRange) :
    (steps label mutations w).2.state.InRange := by
  induction mutations generalizing w with
  | nil => exact hw
  | cons m rest ih =>
    rw [steps]
    split
    · exact hw
    · rename_i next hstep
      obtain ⟨v, account, -, hv, -, rfl⟩ := step_ok hstep
      apply ih
      · intro later hl
        exact hexprs later (List.mem_cons_of_mem _ hl)
      · exact hw.put (Expr.evaluate_inRange hw m.expr (hexprs m List.mem_cons_self) v hv) m.target

theorem inRange_transact {s : Store} (hs : s.state.InRange) :
    (s.transact label mutations).2.state.InRange := by
  have hsteps : (steps label mutations ⟨s.state, s.account, 0⟩).2.state.InRange :=
    inRange_steps hexprs hs
  cases hb : s.busy with
  | true =>
    rw [transact_of_busy hb]
    exact hs
  | false =>
    rw [transact_of_idle hb]
    split
    · exact hs
    · rename_i w hw
      rw [hw] at hsteps
      unfold commit
      dsimp only
      split
      · exact hs
      · dsimp only
        split
        · exact hs
        · exact hsteps

omit hexprs in
theorem inRange_assign {s : Store} (hs : s.state.InRange) (name : String) {v : Value}
    (hv : v.InRange) : (s.assign name v).2.state.InRange := by
  apply inRange_transact _ hs
  intro m hm
  rw [List.mem_singleton.1 hm]
  intro w hw
  rw [Expr.parts, List.mem_singleton] at hw
  cases hw
  exact hv

end Store

theorem Application.Offers.inRange {app : Application} (happ : app.InRange)
    {change : Store → Except Failure (List String) × Store} (h : app.Offers change) {s : Store}
    (hs : s.state.InRange) : (change s).2.state.InRange := by
  cases h with
  | execute name =>
    dsimp only
    rw [Store.execute]
    split
    · rename_i a ha
      exact Store.inRange_transact (happ.actions name a ha) hs
    · exact hs
  | assign name text => exact Store.inRange_assign hs name trivial

theorem PropValue.resolve_inRange {s : State} (hs : s.InRange) {p : PropValue} (hp : p.InRange) :
    Yields Output.InRange (p.resolve s) := by
  cases p with
  | literal v => exact .ok hp
  | color c => exact .ok trivial
  | expr e => exact (Expr.evaluate_inRange hs e hp).map fun v hv => hv
  | ident name => exact (Expr.lookup_inRange hs name).map fun v hv => hv

theorem PropValue.resolveValue_inRange {s : State} (hs : s.InRange) {p : PropValue} (hp : p.InRange)
    (place : String) : YieldsInRange (p.resolveValue s place) := by
  have hresolve := resolve_inRange hs hp
  rw [resolveValue]
  split
  · rename_i v hv
    exact .ok (hresolve _ hv)
  · exact .error _
  · exact .error _

namespace ArenaNode

variable {n : ArenaNode} (hn : ∀ name p, n.node.props.get? name = some p → p.InRange)

include hn

theorem node_resolve_inRange {s : State} (hs : s.InRange) (facet : Facet) :
    Yields FacetValue.InRange (n.node.resolve s facet) := by
  cases facet with
  | text => exact (Yields.always _).map fun _ _ => trivial
  | visible =>
    rw [ViewNode.resolve]
    split
    · exact .ok trivial
    · exact (Yields.always _).map fun _ _ => trivial
  | value =>
    rw [ViewNode.resolve]
    split
    · exact .ok trivial
    · rename_i p hp
      exact (p.resolveValue_inRange hs (hn _ p hp) bindProp).map fun v hv => hv
  | prop name =>
    rw [ViewNode.resolve]
    split
    · exact .ok trivial
    · rename_i p hp
      exact (p.resolve_inRange hs (hn _ p hp)).map fun o ho => ho

theorem resolve_inRange {s : State} (hs : s.InRange) {facet : Facet} {value : FacetValue}
    (h : (n.resolve s facet).2 = .ok value) : value.InRange := by
  have hnode := node_resolve_inRange hn hs facet
  rw [resolve] at h
  cases hr : n.node.resolve s facet with
  | ok shown =>
    rw [hr] at h
    cases h
    exact hnode _ hr
  | error fault =>
    rw [hr] at h
    cases fault with
    | evaluation cause =>
      cases h
      cases facet <;> trivial
    | sandbox cause | missingArgument b | notWhole x => cases h

end ArenaNode

namespace Node

theorem InRange.write {node : Node} (h : node.InRange) (facet : Facet) {value : FacetValue}
    (hv : value.InRange) : (node.write facet value).InRange := by
  simp only [Node.write]
  split
  · exact ⟨h.value, h.props⟩
  · exact ⟨h.value, h.props⟩
  · refine ⟨?_, h.props⟩
    rintro v ⟨⟩
    exact hv
  · rename_i name o
    refine ⟨h.value, fun other p hp => ?_⟩
    rw [Table.get?_put] at hp
    by_cases hn : other = name
    · rw [if_pos hn] at hp
      cases hp
      exact hv
    · rw [if_neg hn] at hp
      exact h.props other p hp
  · exact h

theorem InRange.writeAll {node : Node} (h : node.InRange) {values : List (Facet × FacetValue)}
    (hv : ∀ entry ∈ values, entry.2.InRange) : (node.writeAll values).InRange := by
  induction values generalizing node with
  | nil => exact h
  | cons entry rest ih =>
    apply ih (h.write entry.1 (hv entry List.mem_cons_self))
    intro later hl
    exact hv later (List.mem_cons_of_mem _ hl)

theorem Mirrors.inRange {s : State} (hs : s.InRange) {n : ArenaNode}
    (hn : ∀ name p, n.node.props.get? name = some p → p.InRange) {node : Node}
    (h : node.Mirrors s n) : node.InRange where
  value v hv := by
    have hmem : .value ∈ n.facets := by
      rw [← h.facets, mem_facets_value, hv]
      rfl
    have hread := ArenaNode.resolve_inRange hn hs (h.shows _ hmem)
    rwa [read, hv] at hread
  props name o ho := by
    have hmem : .prop name ∈ n.facets := by
      rw [← h.facets, mem_facets_prop]
      exact List.mem_map_of_mem (Table.mem_entries ho)
    have hread := ArenaNode.resolve_inRange hn hs (h.shows _ hmem)
    rwa [read, ho] at hread

end Node

def Tree.InRange (app : Application) (tree : Tree) : Prop :=
  List.Forall₂ (fun _ (node : Node) => node.InRange) app.nodes tree.nodes

theorem Tree.InRange.node {app : Application} {tree : Tree} (h : tree.InRange app) {node : Node}
    (hnode : node ∈ tree.nodes) : node.InRange := by
  obtain ⟨n, -, hn⟩ := exists_of_forall₂ h.flip hnode
  exact hn

namespace View

variable {app : Application} (happ : app.InRange) {s : State} (hs : s.InRange)

include happ hs

theorem materialize_inRange {account : Account} {shown : Rendering}
    (h : (materialize app s account).outcome = .ok shown) : shown.tree.InRange app := by
  have hmirrors := materialize_mirrors h
  have hnodes : ∀ n ∈ app.nodes, ∀ name p, n.node.props.get? name = some p → p.InRange := happ.props
  exact ((List.forall₂_and_left _ _).2 ⟨hnodes, hmirrors⟩).imp fun n node hn => hn.2.inRange hs hn.1

theorem reconcile_inRange {tree : Tree} (htree : tree.InRange app) {dirty : List String}
    {account : Account} {shown : Rendering}
    (h : (reconcile app s (some tree) dirty account).outcome = .ok shown) :
    shown.tree.InRange app := by
  obtain ⟨result, hr, rfl⟩ := outcome_rendering h
  refine updateNodes_forall₂ hr htree fun n hn before values hbefore hv => ?_
  obtain ⟨-, hall⟩ := ArenaNode.resolveAll_ok hv
  apply hbefore.writeAll
  intro entry he
  exact ArenaNode.resolve_inRange (happ.props n hn) hs (hall entry (List.mem_of_mem_filter he))

end View

/-- Stores of an application with the view that was last built or brought up to date, if any. Actions
may succeed or fail, any number of 64 bits may be assigned, and the view may be brought up to date for
any variables. -/
inductive Application.Visits (app : Application) : Store → Option Tree → Prop where
  | created {account : Account} {s : Store} (h : Store.create app.initialState account = .ok s) :
      app.Visits s none
  | acted {s : Store} {tree : Option Tree} (h : app.Visits s tree) {name : String} {a : Action}
      (ha : app.actions.get? name = some a) : app.Visits (s.apply a).2 tree
  | assigned {s : Store} {tree : Option Tree} (h : app.Visits s tree) (name : String) {v : Value}
      (hv : v.InRange) : app.Visits (s.assign name v).2 tree
  | built {s : Store} {tree : Option Tree} (h : app.Visits s tree) {account : Account}
      {shown : Rendering} (hb : (View.materialize app s.state account).outcome = .ok shown) :
      app.Visits s (some shown.tree)
  | updated {s : Store} {tree : Option Tree} (h : app.Visits s tree) {dirty : List String}
      {account : Account} {shown : Rendering}
      (hr : (View.reconcile app s.state tree dirty account).outcome = .ok shown) :
      app.Visits s (some shown.tree)

theorem Store.state_of_create {initial : State} {account : Account} {s : Store}
    (h : create initial account = .ok s) : s.state = initial := by
  rw [create] at h
  cases ha : account.allocate (sizeOfState initial) "initial state" with
  | error cause =>
    rw [ha] at h
    cases h
  | ok charged =>
    rw [ha] at h
    cases h
    rfl

theorem Application.Visits.inRange {app : Application} (happ : app.InRange) {s : Store}
    {tree : Option Tree} (h : app.Visits s tree) :
    s.state.InRange ∧ ∀ t, tree = some t → t.InRange app := by
  induction h with
  | created h =>
    rw [Store.state_of_create h]
    exact ⟨happ.state, fun t ht => nomatch ht⟩
  | acted _ ha ih => exact ⟨Store.inRange_transact (happ.actions _ _ ha) ih.1, ih.2⟩
  | assigned _ name hv ih => exact ⟨Store.inRange_assign ih.1 name hv, ih.2⟩
  | built _ hb ih =>
    refine ⟨ih.1, ?_⟩
    rintro t ⟨⟩
    exact View.materialize_inRange happ ih.1 hb
  | @updated s tree _ dirty account shown hr ih =>
    refine ⟨ih.1, ?_⟩
    rintro t ⟨⟩
    cases tree with
    | none => exact View.materialize_inRange happ ih.1 hr
    | some before => exact View.reconcile_inRange happ ih.1 (ih.2 before rfl) hr

variable {σ : Type}

structure Core.InRange (app : Application) (core : Core σ) : Prop where
  app_eq : core.app = app
  state : core.store.state.InRange
  tree : core.tree.InRange app

theorem Core.inRange_law {app : Application} (happ : app.InRange) :
    Core.Law fun core later : Core σ => core.InRange app → later.InRange app where
  trans _ _ _ h h' hc := h' (h hc)
  alike core later h hc := by
    refine ⟨h.app.trans hc.app_eq, ?_, ?_⟩
    · rw [h.store]
      exact hc.state
    · rw [h.tree]
      exact hc.tree
  strike core cause hc := ⟨hc.app_eq, hc.state, hc.tree⟩
  revise core change hoffers hc := by
    obtain ⟨rfl, hstate, htree⟩ := hc
    have hchanged := hoffers.inRange happ hstate
    rcases core.revise_cases change with ⟨failure, store, hchange, hr⟩ |
      ⟨dirty, store, pass, failure, hchange, rfl, ho, hr⟩ |
      ⟨dirty, store, pass, rendering, hchange, rfl, ho, hr⟩
    · rw [hchange] at hchanged
      rw [hr]
      refine ⟨struck_app _ _, ?_, ?_⟩
      · rw [struck_store]
        exact hchanged
      · rw [struck_tree]
        exact htree
    · rw [hchange] at hchanged
      rw [hr]
      refine ⟨struck_app _ _, ?_, ?_⟩
      · rw [struck_store]
        exact hchanged
      · rw [struck_tree]
        exact htree
    · rw [hchange] at hchanged
      rw [hr]
      exact ⟨rfl, hchanged, View.reconcile_inRange happ hchanged htree ho⟩

theorem Launch.inRange_of_start {app : Application} (happ : app.InRange) {limits : Limits}
    {r : Renderer σ} {sink : σ} {world : World σ}
    (h : (Launch.start app limits r sink).outcome = .ok world) : world.2.InRange app := by
  obtain ⟨store, pass, rendering, hc, rfl, hp, happ_eq, hstore, htree, -⟩ := Launch.start_ok h
  have hstate : store.state.InRange := by
    rw [Store.state_of_create hc]
    exact happ.state
  refine ⟨happ_eq, ?_, ?_⟩
  · rw [hstore]
    exact hstate
  · rw [htree]
    exact View.materialize_inRange happ hstate hp

/-- In a document whose literals and initial values have 64 bits, no whole number ever has more: not in
a state that actions and assignments of such numbers lead to, nor half way through an action, nor in a
view that was built or brought up to date on the way, nor while the application runs. And no part of an
expression whose literals have 64 bits yields one that has more under a state that holds none. -/
theorem Program.keeps_64_bits {p : Program} {app : Application} (hload : p.load = .ok app)
    (hp : p.InRange) :
    (∀ s tree, app.Visits s tree →
      s.state.InRange ∧ (∀ t, tree = some t → ∀ node ∈ t.nodes, node.InRange) ∧
      ∀ name a, app.actions.get? name = some a → ∀ before after, a.mutations = before ++ after →
        (Store.steps a.name before ⟨s.state, s.account, 0⟩).2.state.InRange) ∧
    (∀ s : State, s.InRange → ∀ e : Expr, e.InRange → ∀ part ∈ e.parts, ∀ v,
      part.evaluate s = .ok v → v.InRange) ∧
    ∀ (limits : Limits) (r : Renderer σ) (sink : σ) (world : World σ),
      (Launch.start app limits r sink).outcome = .ok world → ∀ depth cs,
        ∀ core ∈ world.2 :: World.history r depth world cs,
          core.store.state.InRange ∧ ∀ node ∈ core.tree.nodes, node.InRange := by
  obtain ⟨-, rfl⟩ := load_eq_ok_iff.1 hload
  have happ := hp.application
  refine ⟨?_, fun s hs e he part hpart => Expr.evaluate_inRange hs part (he.part hpart), ?_⟩
  · intro s tree h
    obtain ⟨hstate, htree⟩ := h.inRange happ
    refine ⟨hstate, fun t ht node hnode => (htree t ht).node hnode, ?_⟩
    intro name a ha before after hsplit
    apply Store.inRange_steps _ hstate
    intro m hm
    apply happ.actions name a ha
    rw [hsplit]
    exact List.mem_append_left _ hm
  · intro limits r sink world hstart depth cs core hcore
    have hstarted := Launch.inRange_of_start happ hstart
    have hlaw := Core.inRange_law (σ := σ) happ
    have hpairs := (World.run_along hlaw r depth world cs).pairwise hlaw.trans
    have hinRange : core.InRange p.application := by
      rcases List.mem_cons.1 hcore with rfl | hcore
      · exact hstarted
      · exact (List.pairwise_cons.1 hpairs).1 core (List.mem_append_left _ hcore) hstarted
    exact ⟨hinRange.state, fun node hnode => hinRange.tree.node hnode⟩

def fullCounter : Program := { counter with state := [("count", .int 0x7FFFFFFFFFFFFFFF)] }

theorem fullCounter_inRange : fullCounter.InRange where
  state entry he := by
    rw [List.mem_singleton.1 he]
    exact ⟨by decide, by decide⟩
  actions a ha m hm := by
    rw [List.mem_singleton.1 ha] at hm
    rw [List.mem_singleton.1 hm]
    intro v hv
    have hone : v = .int 1 := by simpa [Expr.parts] using hv
    rw [hone]
    exact ⟨by decide, by decide⟩
  props n hn entry he := by
    obtain rfl : n = counterLabel := List.mem_singleton.1 hn
    have hentries : counterLabel.node.props.entries =
        [("value", .ident "count"), ("on_click", .ident "raise")] := by rfl
    rw [hentries] at he
    have hcases : entry = ("value", .ident "count") ∨ entry = ("on_click", .ident "raise") := by
      simpa using he
    rcases hcases with rfl | rfl
    · trivial
    · trivial

/-- Raised once more, the counter starts again at the least number of 64 bits. -/
theorem fullCounter_keeps_64_bits :
    fullCounter.load = .ok fullCounter.application ∧ fullCounter.InRange ∧
    ∃ s a, fullCounter.application.Visits s none ∧
      fullCounter.application.actions.get? "raise" = some a ∧
      (s.apply a).2.state.get? "count" = some (.int (-0x8000000000000000)) ∧
      (s.apply a).2.state.InRange := by
  have hload : fullCounter.load = .ok fullCounter.application :=
    Program.load_eq_ok_iff.2 ⟨by decide +kernel, rfl⟩
  have hcreate : Store.create fullCounter.application.initialState (none : Account) =
      .ok ⟨fullCounter.application.initialState, none, false⟩ := rfl
  have hs := Application.Visits.created hcreate
  have ha : fullCounter.application.actions.get? "raise" = some ⟨"raise", [⟨"count",
      .binary (.arithmetic .add) (.ident "count") (.literal (.int 1))⟩]⟩ := by rfl
  have hraised := (Program.keeps_64_bits (σ := Unit) hload fullCounter_inRange).1 _ _ (hs.acted ha)
  exact ⟨hload, fullCounter_inRange, _, _, hs, ha, by rfl, hraised.1⟩

end ReactiveView
