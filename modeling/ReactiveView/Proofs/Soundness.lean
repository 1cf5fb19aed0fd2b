import ReactiveView.Proofs.Handlers
import ReactiveView.Proofs.Invocation

namespace ReactiveView

structure Expr.Safe (s : State) (e : Expr) : Prop where
  byValue : FailsByValue (e.evaluate s)
  fits : ∀ i ∈ (e.trace s).1, i.Fits

theorem Table.get?_ne_none {α : Type} {t : Table α} {names : List String} (ht : t.names = names)
    {x : String} (hx : x ∈ names) : t.get? x ≠ none := fun h => Table.get?_eq_none.1 h (ht ▸ hx)

theorem Expr.Closed.safe {names : List String} {e : Expr} (h : e.Closed names) {s : State}
    (hs : s.names = names) : e.Safe s where
  byValue := (Expr.evaluate_blame s e).mono fun _ hb =>
    hb.ofValues (fun x hx => Table.get?_ne_none hs (h.reads x hx)) h.supplied
  fits _ hi := Expr.fits_of_mem_trace h.supplied hi

/-- A transaction fails by values: an assignment has none, or a charge does not fit. -/
def Failure.OfValues (label : String) : Failure → Prop
  | .action (.evaluation name _ cause) => name = label ∧ (Fault.evaluation cause).OfValues
  | .sandbox cause => cause.code = .memoryExceeded
  | _ => False

theorem Account.code_of_allocate {account : Account} {bytes : Int} {what : String}
    {cause : SandboxError} (h : account.allocate bytes what = .error cause) :
    cause.code = .memoryExceeded := by
  cases account with
  | none => cases h
  | some m =>
    rw [allocate, Meter.allocate] at h
    split at h
    · cases h
      rfl
    · cases h

namespace Store

variable {names : List String} {label : String} {mutations : List Mutation}

theorem ofValues_of_step {m : Mutation} (htarget : m.target ∈ names) (hexpr : m.expr.Closed names)
    {w : Working} (hw : w.state.names = names) {failure : Failure}
    (h : step label m w = .error failure) : failure.OfValues label := by
  rcases step_error h with ⟨hhas, -⟩ | ⟨fault, heval, rfl⟩ | ⟨_, cause, halloc, rfl⟩
  · rw [Table.has_iff.2 (hw ▸ htarget)] at hhas
    cases hhas
  · have hvalues := (hexpr.safe hw).byValue fault heval
    cases fault with
    | evaluation cause => exact ⟨rfl, hvalues⟩
    | sandbox cause => exact hvalues
    | missingArgument b | notWhole x => exact hvalues
  · exact Account.code_of_allocate halloc

theorem ofValues_of_transact (hclosed : ∀ m ∈ mutations, m.target ∈ names ∧ m.expr.Closed names)
    {s : Store} (hs : s.state.names = names) (hidle : s.busy = false) {failure : Failure}
    (h : (s.transact label mutations).1 = .error failure) : failure.OfValues label := by
  rcases transact_error h with ⟨hbusy, -⟩ | ⟨before, m, after, w, rfl, hbefore, hstep⟩ |
    ⟨_, _, cause, halloc, rfl⟩
  · rw [hidle] at hbusy
    cases hbusy
  · obtain ⟨htarget, hexpr⟩ := hclosed m (List.mem_append_right _ List.mem_cons_self)
    exact ofValues_of_step htarget hexpr ((names_of_steps hbefore).trans hs) hstep
  · exact Account.code_of_allocate halloc

end Store

namespace Application

/-- An application starts with a store, and its actions and assignments to its variables lead to more,
whether they succeed or fail. -/
inductive Reaches (app : Application) : Store → Prop where
  | created {account : Account} {s : Store} (h : Store.create app.initialState account = .ok s) :
      app.Reaches s
  | acted {s : Store} (h : app.Reaches s) {name : String} {a : Action}
      (ha : app.actions.get? name = some a) : app.Reaches (s.apply a).2
  | assigned {s : Store} (h : app.Reaches s) {name : String} (hname : name ∈ app.initialState.names)
      (value : Value) : app.Reaches (s.assign name value).2

variable {app : Application}

theorem Reaches.settled {s : Store} (h : app.Reaches s) :
    s.state.names = app.initialState.names ∧ s.busy = false := by
  induction h with
  | @created account s h =>
    rw [Store.create] at h
    cases ha : account.allocate (Store.sizeOfState app.initialState) "initial state" with
    | error cause =>
      rw [ha] at h
      cases h
    | ok charged =>
      rw [ha] at h
      cases h
      exact ⟨rfl, rfl⟩
  | acted _ _ ih => exact ⟨(Store.names_transact _ _).trans ih.1, Store.idle_transact ih.2 _ _⟩
  | assigned _ _ value ih => exact ⟨(Store.names_transact _ _).trans ih.1, Store.idle_transact ih.2 _ _⟩

end Application

/-- An action assigns declared variables only, each expression is safe under the committed state and
where it is evaluated, after the assignments before it, and the action fails by values. -/
structure Action.Safe (s : Store) (a : Action) : Prop where
  committed : ∀ m ∈ a.mutations, m.expr.Safe s.state
  running : ∀ before m after w, a.mutations = before ++ m :: after →
    Store.steps a.name before ⟨s.state, s.account, 0⟩ = (.ok (), w) →
      w.state.has m.target = true ∧ m.expr.Safe w.state
  outcome : ∀ failure, (s.apply a).1 = .error failure → failure.OfValues a.name

/-- The facets of a node fail by values, its expressions are safe, its text is always there, and where
only runtime values are allowed it has no color. -/
structure ArenaNode.Safe (s : State) (n : ArenaNode) : Prop where
  facets : ∀ facet ∈ n.facets, FailsByValue (n.node.resolve s facet)
  exprs : ∀ entry ∈ n.node.props.entries, ∀ e, entry.2 = .expr e → e.Safe s
  text : .text ∈ n.facets → ∃ text, n.node.resolve s .text = .ok (.text text)
  noColor : ∀ p, n.node.props.get? visibleProp = some p ∨ n.node.props.get? bindProp = some p →
    ∀ c, p.resolve s ≠ .ok (.color c)

theorem PropValue.color_of_resolve {s : State} {p : PropValue} {c : Color}
    (h : p.resolve s = .ok (.color c)) : p = .color c := by
  cases p with
  | literal v => cases h
  | color d =>
    cases h
    rfl
  | expr e =>
    rw [resolve] at h
    cases he : e.evaluate s <;> rw [he] at h <;> cases h
  | ident name =>
    rw [resolve] at h
    cases hl : Expr.lookup s name <;> rw [hl] at h <;> cases h

theorem Span.exists_resolveAll {s : State} {spans : List Span}
    (h : ∀ x ∈ spans.flatMap Span.reads, s.get? x ≠ none) :
    ∃ text, Span.resolveAll s spans = .ok text := by
  induction spans with
  | nil => exact ⟨"", rfl⟩
  | cons span rest ih =>
    obtain ⟨later, hlater⟩ := ih fun x hx => h x (List.mem_append_right _ hx)
    have hspan : ∃ text, span.resolve s = .ok text := by
      cases span with
      | literal text => exact ⟨text, rfl⟩
      | var name =>
        obtain ⟨v, hv⟩ := Option.ne_none_iff_exists'.1 (h name List.mem_cons_self)
        exact ⟨v.text, by rw [resolve, Expr.lookup, hv]; rfl⟩
    obtain ⟨text, htext⟩ := hspan
    exact ⟨text ++ later, by rw [resolveAll, htext, hlater]; rfl⟩

namespace Application.Closed

variable {app : Application} (hclosed : app.Closed)

include hclosed

theorem action_safe {s : Store} (hs : app.Reaches s) {name : String} {a : Action}
    (ha : app.actions.get? name = some a) : a.Safe s := by
  obtain ⟨-, hmutations⟩ := hclosed.mutations name a ha
  obtain ⟨hnames, hidle⟩ := hs.settled
  refine ⟨fun m hm => (hmutations m hm).2.safe hnames, fun before m after w hsplit hsteps => ?_,
    fun failure hf => Store.ofValues_of_transact hmutations hnames hidle hf⟩
  obtain ⟨htarget, hexpr⟩ := hmutations m (hsplit ▸ List.mem_append_right _ List.mem_cons_self)
  have hw : w.state.names = app.initialState.names := (Store.names_of_steps hsteps).trans hnames
  exact ⟨Table.has_iff.2 (hw ▸ htarget), hexpr.safe hw⟩

theorem node_safe (hsound : app.Sound) {s : State} (hs : s.names = app.initialState.names)
    {n : ArenaNode} (hn : n ∈ app.nodes) : n.Safe s where
  facets facet hf := (ArenaNode.node_resolve_blame s hf).mono fun _ hb =>
    hb.ofValues (fun x hx => Table.get?_ne_none hs (hclosed.reads n hn facet x hx))
      (hsound.supplied n hn)
  exprs entry he e hexpr := (hclosed.props n hn entry he e hexpr).safe hs
  text _ := by
    have hreads : ∀ x ∈ (n.node.text.getD []).flatMap Span.reads, s.get? x ≠ none := fun x hx =>
      Table.get?_ne_none hs (hclosed.reads n hn .text x (ArenaNode.text_mem_readsIn hx))
    obtain ⟨text, htext⟩ := Span.exists_resolveAll hreads
    exact ⟨text, by rw [ViewNode.resolve, htext]; rfl⟩
  noColor p hget c hcolor := hclosed.noColor n hn p hget c (PropValue.color_of_resolve hcolor)

end Application.Closed

/-- An application that was loaded fails by values only. Whatever its actions do and whatever is
assigned to its variables, actions and nodes are safe: no variable is missing, no function is unknown or
called with a number of arguments that it does not take, and no number without a whole part is
converted. While it runs, every action that a handler of the view names exists, so no event fails by an
action that does not exist, unless the renderer asked for one of its own accord and let the error
pass. -/
theorem Program.fails_by_values {p : Program} {app : Application} (hload : p.load = .ok app) :
    (∀ s, app.Reaches s →
      (∀ name a, app.actions.get? name = some a → a.Safe s) ∧ ∀ n ∈ app.nodes, n.Safe s.state) ∧
    ∀ (σ : Type) (limits : Limits) (r : Renderer σ) (sink : σ) (world : World σ),
      (Launch.start app limits r sink).outcome = .ok world → ∀ depth cs,
        let reached := World.run r depth world cs
        (∀ node ∈ reached.2.tree.nodes, ∀ property action,
          node.handlers.get? property = some action → ∃ a, app.actions.get? action = some a) ∧
        ∀ request,
          (∀ error, ((World.calls r depth).dispatch request reached).1 ≠ .error (.action error)) ∧
          ∀ outcomes, ((World.calls r depth).dispatch request reached).1 = .ok outcomes →
            ∀ outcome ∈ outcomes, ∀ name, outcome.result = .failed (.unknownAction name) →
              r.Misnames name := by
  have hclosed := closed_of_load hload
  have hsound := sound_of_load hload
  refine ⟨fun s hs => ⟨fun name a ha => hclosed.action_safe hs ha,
    fun n hn => hclosed.node_safe hsound hs.settled.1 hn⟩, ?_⟩
  intro σ limits r sink world hstart depth cs reached
  have hwired : reached.2.Wired app r :=
    World.run_wired hclosed hsound r depth (Launch.wired_of_start hstart) cs
  refine ⟨fun node hnode property action => hwired.exists_action hclosed hnode, fun request =>
    ⟨World.dispatch_ne_action r depth request reached, fun outcomes houtcomes => ?_⟩⟩
  exact (World.calls_wire hclosed hsound r depth).report request reached outcomes hwired houtcomes

theorem Renderer.not_misnames_silent (name : String) : ¬Renderer.silent.Misnames name := by
  rintro ⟨depth, patches, tree, world, h⟩
  cases h

/-- The counter is raised safely, and no click on its label fails by an action that does not exist. -/
theorem counter_fails_by_values :
    (∃ s a, counter.application.Reaches s ∧ counter.application.actions.get? "raise" = some a ∧
      a.Safe s) ∧
    ∃ world, (Launch.start counter.application {} Renderer.silent ()).outcome = .ok world ∧
      ∀ cs outcomes, ((World.calls Renderer.silent World.nestingLimit).dispatch ⟨.position 0, .click⟩
        (World.run Renderer.silent World.nestingLimit world cs)).1 = .ok outcomes →
          ∀ outcome ∈ outcomes, ∀ name, outcome.result ≠ .failed (.unknownAction name) := by
  obtain ⟨hstores, hworlds⟩ := Program.fails_by_values counter_loads
  constructor
  · have hcreate : Store.create counter.application.initialState (none : Account) =
        .ok ⟨counter.application.initialState, none, false⟩ := rfl
    have hs := Application.Reaches.created hcreate
    obtain ⟨a, ha⟩ := Option.isSome_iff_exists.1
      (show (counter.application.actions.get? "raise").isSome = true by decide +kernel)
    exact ⟨_, a, hs, ha, (hstores _ hs).1 "raise" a ha⟩
  · obtain ⟨world, hstart, -⟩ := exists_ok_of_any
      (Launch.start counter.application {} Renderer.silent ()).outcome (fun _ => true)
      (by decide +kernel)
    refine ⟨world, hstart, fun cs outcomes hanswer outcome hmem name hresult => ?_⟩
    have hevents := (hworlds Unit {} Renderer.silent () world hstart World.nestingLimit cs).2
    exact Renderer.not_misnames_silent name
      ((hevents ⟨.position 0, .click⟩).2 outcomes hanswer outcome hmem name hresult)

end ReactiveView
