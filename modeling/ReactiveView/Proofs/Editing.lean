import ReactiveView.Proofs.Coherence
import ReactiveView.Proofs.Patching
import ReactiveView.Proofs.Reporting
import ReactiveView.Proofs.Soundness
import ReactiveView.Proofs.Turns

namespace ReactiveView

variable {σ : Type}

def initialText : Option Value → List Char
  | none | some .null => []
  | some v => v.text.toList

theorem toList_editableText (v : Option Value) : (editableText v).toList = initialText v := by
  cases v with
  | none => rfl
  | some v => cases v <;> rfl

namespace Event

/-- An editor over code points: input replaces the text, a key appends to it, and backspace drops the last
code point, if there is one. -/
def typed (text : List Char) : Event → List Char
  | .input value => value.toList
  | .key added => text ++ added.toList
  | .backspace => text.dropLast
  | .click | .change => text

theorem toList_edit (text : String) (e : Event) : (edit text e).toList = typed text.toList e := by
  cases e with
  | input value | click | change => rfl
  | key added => exact String.toList_append
  | backspace => exact String.toList_ofList

def edited (v : Option Value) (e : Event) : Option Value := some (.str (edit (editableText v) e))

theorem initialText_edited (v : Option Value) (e : Event) :
    initialText (edited v e) = typed (initialText v) e := by
  rw [edited, ← toList_editableText v, ← toList_edit]
  rfl

theorem foldl_edited {events : List Event} (hne : events ≠ []) (v : Option Value) :
    events.foldl edited v = some (.str (String.ofList (events.foldl typed (initialText v)))) := by
  induction events generalizing v with
  | nil => exact absurd rfl hne
  | cons e rest ih =>
    rw [List.foldl_cons, List.foldl_cons, ← initialText_edited]
    cases rest with
    | nil =>
      have htext : (edit (editableText v) e).toList = initialText (edited v e) := rfl
      rw [List.foldl_nil, List.foldl_nil, ← htext, String.ofList_toList, edited]
    | cons next later => exact ih (List.cons_ne_nil _ _) _

end Event

namespace Store

variable {s later : Store} {x : String}

theorem error_of_assign (hidle : s.busy = false) (hx : x ∈ s.state.names) {v : Value} {failure : Failure}
    (h : (s.assign x v).1 = .error failure) : ∃ cause, failure = .sandbox cause := by
  rcases transact_error h with ⟨hbusy, -⟩ | ⟨before, m, after, w, hsplit, hbefore, hstep⟩ |
    ⟨_, _, cause, -, rfl⟩
  · rw [hidle] at hbusy
    cases hbusy
  · have hm : m = ⟨x, .literal v⟩ :=
      List.mem_singleton.1 (hsplit ▸ List.mem_append_right _ List.mem_cons_self)
    have hnames : w.state.names = s.state.names := names_of_steps hbefore
    rcases step_error hstep with ⟨hhas, -⟩ | ⟨fault, hfault, -⟩ | ⟨_, cause, -, rfl⟩
    · rw [hm, Table.has_iff.2 (hnames ▸ hx)] at hhas
      cases hhas
    · rw [hm] at hfault
      cases hfault
    · exact ⟨cause, rfl⟩
  · exact ⟨cause, rfl⟩

theorem get?_of_assign_str {text : String} {dirty : List String}
    (h : s.assign x (.str text) = (.ok dirty, later)) : later.state.get? x = some (.str text) := by
  obtain ⟨-, w, hsteps, hdirty, hlater⟩ := transact_ok h
  have hnames := names_of_steps hsteps
  have hw : w.state.get? x = some (.str text) := by
    rw [steps] at hsteps
    split at hsteps
    · cases hsteps
    · rename_i next hstep
      obtain ⟨value, account, -, hv, -, rfl⟩ := step_ok hstep
      cases hv
      cases hsteps
      dsimp only
      rw [Table.get?_put, if_pos rfl]
  rw [hlater]
  split
  · rename_i hempty
    -- nothing is reported, so change detection took the text for the value that was there
    have hsame : changed s.state w.state x = false := by
      rw [List.isEmpty_iff.1 hempty] at hdirty
      have hkept := List.filter_eq_nil_iff.1 hdirty.symm x (mem_targets.2 List.mem_cons_self)
      simpa using hkept
    have hunchanged := unchanged_of_changed hnames.symm hsame
    rw [hw] at hunchanged
    exact Application.eq_of_unchanged hunchanged (by rintro ⟨⟩)
  · exact hw

end Store

theorem Application.Offers.settles {app : Application}
    {change : Store → Except Failure (List String) × Store} (h : app.Offers change) {s : Store}
    (hidle : s.busy = false) :
    (change s).2.state.names = s.state.names ∧ (change s).2.busy = false := by
  rcases h.eq_transact s with ⟨label, mutations, hc⟩ | ⟨failure, hc⟩
  · rw [hc]
    exact ⟨Store.names_transact _ _, Store.idle_transact hidle _ _⟩
  · rw [hc]
    exact ⟨rfl, hidle⟩

structure Core.Settled (app : Application) (core : Core σ) : Prop where
  app_eq : core.app = app
  names : core.store.state.names = app.initialState.names
  idle : core.store.busy = false

namespace Core

theorem store_revise (change : Store → Except Failure (List String) × Store) (core : Core σ) :
    (core.revise change).2.app = core.app ∧
      (core.revise change).2.store.state = (change core.store).2.state ∧
      (core.revise change).2.store.busy = (change core.store).2.busy := by
  rcases core.revise_cases change with ⟨failure, store, hc, hr⟩ |
    ⟨dirty, store, pass, failure, hc, -, -, hr⟩ | ⟨dirty, store, pass, rendering, hc, -, -, hr⟩ <;>
    rw [hr, hc] <;> exact ⟨rfl, rfl, rfl⟩

theorem revise_of_fatal (change : Store → Except Failure (List String) × Store) (core : Core σ)
    (fatal : Option SandboxError) : { core with fatal }.revise change =
      ((core.revise change).1, { (core.revise change).2 with fatal }) := by
  simp only [revise]
  split
  · rfl
  · split <;> rfl

end Core

namespace Turn

variable {app : Application} {t : Turn σ}

theorem settled_after (h : t.before.2.Settled app) : t.after.Settled app := by
  rw [after]
  rcases t.result_cases with ⟨change, hoffers, hr⟩ | ⟨revised, hr⟩
  · obtain ⟨hnames, hidle⟩ := hoffers.settles h.idle
    obtain ⟨happ, hstate, hbusy⟩ := t.before.2.store_revise change
    rw [hr]
    exact ⟨happ.trans h.app_eq, (congrArg Table.names hstate).trans (hnames.trans h.names),
      hbusy.trans hidle⟩
  · rw [hr]
    exact h

theorem tracks_after (hsound : app.Sound) (happ : t.before.2.app = app)
    (htracks : t.before.2.tree.Tracks app.Silent app t.before.2.store.state)
    (hunhindered : ∀ cause, t.result.1 ≠ .error (.sandbox cause)) :
    t.after.tree.Tracks app.Silent app t.after.store.state := by
  rw [after]
  rcases t.result_cases with ⟨change, hoffers, hr⟩ | ⟨revised, hr⟩
  · -- the law is about applications that go on, but a revision does not look at whether this one does
    have hcoherent := (Core.coherent_law hsound).revise { t.before.2 with fatal := none } change hoffers
      ⟨happ, fun _ => htracks⟩
    rw [Core.revise_of_fatal] at hcoherent
    rw [hr] at hunhindered ⊢
    have htracked := hcoherent.tracks
    rw [Core.struck_tree, Core.struck_store] at htracked
    apply htracked
    unfold Core.struck
    split
    · rename_i cause hcause
      exact absurd hcause (hunhindered cause)
    · rfl
  · rw [hr]
    exact htracks

theorem settled_of_coincides {w later : World σ} (h : w.Coincides later) (hw : w.2.Settled app) :
    later.2.Settled app := by
  refine ⟨h.app.trans hw.app_eq, ?_, ?_⟩
  · rw [h.store]
    exact hw.names
  · rw [h.store]
    exact hw.idle

theorem Lead.settled {a b : World σ} {ts : List (Turn σ)} (h : Lead a ts b) (ha : a.2.Settled app) :
    b.2.Settled app := by
  induction ts generalizing a with
  | nil => exact settled_of_coincides h ha
  | cons t rest ih => exact ih h.2 (settled_after (settled_of_coincides h.1 ha))

end Turn

theorem Launch.settled_of_start {app : Application} {limits : Limits} {r : Renderer σ} {sink : σ}
    {world : World σ} (h : (Launch.start app limits r sink).outcome = .ok world) :
    world.2.Settled app := by
  obtain ⟨store, pass, rendering, hc, rfl, -, happ, hstore, -⟩ := Launch.start_ok h
  obtain ⟨hnames, hidle⟩ := (Application.Reaches.created hc).settled
  refine ⟨happ, ?_, ?_⟩
  · rw [hstore]
    exact hnames
  · rw [hstore]
    exact hidle

theorem Tree.Tracks.exists_node {R : List String → State → State → Prop} {app : Application} {s : State}
    {tree : Tree} (h : tree.Tracks R app s) (hnum : app.Numbered) {n : ArenaNode} (hn : n ∈ app.nodes) :
    ∃ node, tree.node? (.position n.ref) = some node ∧ node.Tracks R s n :=
  exists_getElem?_of_forall₂ h.flip (hnum.getElem?_ref hn)

/-- A node is bound to a variable and has no property that hides it. -/
structure ArenaNode.Edits (n : ArenaNode) (x : String) : Prop where
  bound : n.node.props.get? bindProp = some (.ident x)
  plain : n.node.props.get? visibleProp = none

namespace ArenaNode.Edits

variable {n : ArenaNode} {x : String} (h : n.Edits x)

include h

theorem mem_readsIn : x ∈ n.readsIn .value := prop_mem_readsIn h.bound rfl List.mem_cons_self

theorem declared {app : Application} (hclosed : app.Closed) (hn : n ∈ app.nodes) :
    x ∈ app.initialState.names := hclosed.reads n hn .value x h.mem_readsIn

section Tracks

variable {R : List String → State → State → Prop} {s : State} {node : Node} (ht : node.Tracks R s n)

include ht

theorem binding_eq : node.binding = some x := by
  have hshell : node.binding = (Node.shell n).binding :=
    (Node.fields_of_blank_eq (v := Node.shell n) ht.blank).2.2.2.2.2
  rw [hshell, Node.shell, Node.bindingOf, h.bound]

theorem visible_eq : node.visible = true := by
  have hmem : Facet.visible ∈ n.facets := by simp [facets, ViewNode.facets]
  obtain ⟨seen, value, -, hres, hstands⟩ := ht.shows .visible hmem
  rw [resolve, ViewNode.resolve, h.plain] at hres
  cases hres
  rcases hstands with heq | hsame
  · exact FacetValue.visible.inj heq
  · simpa [Node.read, FacetValue.same] using hsame

end Tracks

theorem value_eq {app : Application} {s : State} {node : Node} (ht : node.Tracks app.Silent s n)
    {text : String} (hx : s.get? x = some (.str text)) : node.value = some (.str text) := by
  have hmem : Facet.value ∈ n.facets := by
    rw [facets, ViewNode.mem_facets_value, Table.has_iff]
    exact List.mem_map_of_mem (Table.mem_entries h.bound)
  obtain ⟨seen, value, hsilent, hres, hstands⟩ := ht.shows .value hmem
  have hseen : seen.get? x = some (.str text) := by
    rw [← hx]
    apply hsilent.get?_eq h.mem_readsIn
    rw [hx]
    rintro ⟨⟩
  rw [resolve, ViewNode.resolve, h.bound] at hres
  simp only [PropValue.resolveValue, PropValue.resolve, Expr.lookup, hseen] at hres
  cases hres
  have hget : node.value.getD .null = .str text := by
    rcases hstands with heq | hsame
    · exact Output.value.inj (FacetValue.output.inj heq)
    · exact (Value.near_of_identical hsame).resolve_right (by rintro ⟨_, _, -, ⟨⟩, -⟩)
  cases hv : node.value with
  | none =>
    rw [hv] at hget
    cases hget
  | some v =>
    rw [hv] at hget
    exact congrArg some hget

end ArenaNode.Edits

def Turn.edit? (ref : Nat) : Turn σ → Option Event
  | .action _ _ => none
  | .event request _ =>
    if request.ref = .position ref ∧ request.event.handler? = none then some request.event else none

section Turns

variable {app : Application} (happ : app.Sound) (hclosed : app.Closed) (hnum : app.Numbered)
  {n : ArenaNode} (hn : n ∈ app.nodes) {x : String} (hedits : n.Edits x)

include hnum hn hedits

theorem World.responseTo_of_edit {core : Core σ}
    (htracks : core.tree.Tracks app.Silent app core.store.state) {request : Request}
    (href : request.ref = .position n.ref) (hevent : request.event.handler? = none) :
    responseTo core request = .ok fun store =>
      store.assign x (.str (request.event.edit (editableText (core.store.state.get? x)))) := by
  obtain ⟨node, hnode, hshown⟩ := htracks.exists_node hnum hn
  have hvisible := hedits.visible_eq hshown
  have hbinding := hedits.binding_eq hshown
  simp only [responseTo, href, hnode, hvisible, hevent, hbinding, Bool.not_true, Bool.false_eq_true,
    if_false]

include hclosed

theorem Turn.get?_of_edit {t : Turn σ} (hsettled : t.before.2.Settled app)
    (htracks : t.before.2.tree.Tracks app.Silent app t.before.2.store.state)
    (hunhindered : ∀ cause, t.result.1 ≠ .error (.sandbox cause)) {e : Event}
    (ht : t.edit? n.ref = some e) :
    t.after.store.state.get? x = Event.edited (t.before.2.store.state.get? x) e := by
  cases t with
  | action name before => cases ht
  | event request before =>
    obtain ⟨q, core⟩ := before
    rw [edit?] at ht
    split at ht
    · rename_i hrequest
      obtain ⟨href, hevent⟩ := hrequest
      cases ht
      have hresponse := World.responseTo_of_edit hnum hn hedits htracks href hevent
      dsimp only [Turn.before] at hresponse hsettled ⊢
      rw [after]
      rw [result, hresponse] at hunhindered ⊢
      rw [(core.store_revise _).2.1]
      dsimp only at hunhindered ⊢
      cases hassign : core.store.assign x
          (.str (request.event.edit (editableText (core.store.state.get? x)))) with
      | mk outcome store =>
        cases outcome with
        | ok dirty => exact Store.get?_of_assign_str hassign
        -- An assignment to a declared variable can only fail for memory, which is excluded.
        | error failure =>
          have hx : x ∈ core.store.state.names := hsettled.names ▸ hedits.declared hclosed hn
          obtain ⟨cause, rfl⟩ := Store.error_of_assign hsettled.idle hx (congrArg Prod.fst hassign)
          refine absurd ?_ (hunhindered cause)
          rw [Core.revise, hassign]
    · cases ht

include happ

/-- The events of editing among some turns act on the variable one after the other, if no other turn
changes it, and the view stays up to date. -/
theorem Turn.Lead.foldl_edited {a b : World σ} {ts : List (Turn σ)} (h : Lead a ts b)
    (hsettled : a.2.Settled app) (htracks : a.2.tree.Tracks app.Silent app a.2.store.state)
    (hunhindered : ∀ t ∈ ts, ∀ cause, t.result.1 ≠ .error (.sandbox cause))
    (hother : ∀ t ∈ ts, t.edit? n.ref = none →
      t.after.store.state.get? x = t.before.2.store.state.get? x) :
    b.2.tree.Tracks app.Silent app b.2.store.state ∧ b.2.store.state.get? x =
      (ts.filterMap (edit? n.ref)).foldl Event.edited (a.2.store.state.get? x) := by
  induction ts generalizing a with
  | nil =>
    have hcoincides : a.Coincides b := h
    rw [hcoincides.store, hcoincides.tree]
    exact ⟨htracks, rfl⟩
  | cons t rest ih =>
    obtain ⟨hstart, hrest⟩ := h
    have hfree := hunhindered t List.mem_cons_self
    have hbefore := settled_of_coincides hstart hsettled
    rw [← hstart.store, ← hstart.tree] at htracks
    obtain ⟨hshown, hlater⟩ := ih hrest (settled_after hbefore)
      (tracks_after happ hbefore.app_eq htracks hfree)
      (fun u hu => hunhindered u (List.mem_cons_of_mem _ hu))
      fun u hu => hother u (List.mem_cons_of_mem _ hu)
    refine ⟨hshown, ?_⟩
    rw [hlater, ← hstart.store]
    cases hedit : t.edit? n.ref with
    | none => rw [List.filterMap_cons_none hedit, hother t List.mem_cons_self hedit]
    | some e =>
      rw [List.filterMap_cons_some hedit, List.foldl_cons,
        get?_of_edit hclosed hnum hn hedits hbefore htracks hfree hedit]

end Turns

namespace World

theorem alive_of_run {r : Renderer σ} {depth : Nat} {world : World σ} {cs : List Call}
    (h : (run r (depth + 1) world cs).2.fatal = none) : world.2.fatal = none := by
  cases hf : world.2.fatal with
  | none => rfl
  | some cause =>
    rw [run_of_fatal r depth hf, hf] at h
    cases h

theorem sublist_edits (r : Renderer σ) (depth ref : Nat) {events : List Event}
    (hedits : ∀ e ∈ events, e.handler? = none) {world : World σ} (hidle : world.1.running = false)
    (hcalm : world.Calm) (hlimit : 0 < world.1.limit.most)
    (hlive : (run r (depth + 1) world
      (events.map fun e => .dispatch ⟨.position ref, e⟩)).2.fatal = none) :
    let edits := (runTurns r (depth + 1) world
      (events.map fun e => .dispatch ⟨.position ref, e⟩)).filterMap (Turn.edit? ref)
    events.Sublist edits ∧ (r.Passive → edits = events) := by
  induction events generalizing world with
  | nil => exact ⟨.slnil, fun _ => rfl⟩
  | cons e rest ih =>
    let call : Call := .dispatch ⟨.position ref, e⟩
    have horderly := after_obeys Course.orderly_law (calls_orderly r (depth + 1)) world call
    have hlimit_eq := (after_lead r (depth + 1) world call).limit_eq
    have hlater := ih (fun f hf => hedits f (List.mem_cons_of_mem _ hf))
      (horderly.running.trans hidle) (horderly.calm hcalm).1 (hlimit_eq ▸ hlimit) hlive
    -- Its event takes the first turn; the other turns of the call are those that the renderer asks for.
    obtain ⟨q, others, hturns, hothers⟩ := turnsOf_dispatch r depth ⟨.position ref, e⟩
      (alive_of_run hlive) hidle (hcalm hidle).1 hlimit
    have hedit : Turn.edit? ref (.event ⟨.position ref, e⟩ (q, world.2)) = some e :=
      if_pos ⟨rfl, hedits e List.mem_cons_self⟩
    rw [List.map_cons, runTurns, hturns, List.cons_append, List.filterMap_cons_some hedit,
      List.filterMap_append]
    refine ⟨(hlater.1.trans (List.sublist_append_right _ _)).cons_cons e, fun hpassive => ?_⟩
    rw [hothers hpassive, List.filterMap_nil, List.nil_append, hlater.2 hpassive]

def note : Program where
  app := "Note"
  version := .ofInt 1
  state := [("title", .int 7), ("saves", .int 0)]
  view := some ⟨"input", .ofList [("bind", .ident "title"), ("on_click", .ident "save")], [], none⟩
  actions := [⟨"save",
    [⟨"saves", .binary (.arithmetic .add) (.ident "saves") (.literal (.int 1))⟩]⟩]

/-- Types a character of its own as soon as there is something to show, and breaks off. -/
def hasty : Renderer Unit where
  mount _ _ w := (.ok (), w)
  apply _ _ := .dispatch ⟨.position 0, .key "b"⟩ fun _ => .fail (.defect (.raised "not now"))

end World

end ReactiveView
