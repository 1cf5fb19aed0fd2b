import ReactiveView.Proofs.Closeness
import ReactiveView.Proofs.Reporting

namespace ReactiveView

def Binary64.Confusable (x y : Binary64) : Prop := x ≠ y ∧ (x.sub y).abs.numLt closeness = true

/-- Mutations lead to another state, but change detection tells no assigned variable from its former
value. -/
def Mutation.Overlooked (s : State) (mutations : List Mutation) : Prop :=
  ∃ w, run s mutations = .ok w ∧ w ≠ s ∧ ∀ m ∈ mutations, Store.changed s w m.target = false

def Action.AllNoticed : State → List Action → Prop
  | _, [] => True
  | s, a :: rest =>
    ¬Mutation.Overlooked s a.mutations ∧ ∀ t, Mutation.run s a.mutations = .ok t → AllNoticed t rest

namespace Mutation

theorem not_overlooked_of_changed {s w : State} {mutations : List Mutation}
    (h : run s mutations = .ok w) (hchanged : ∃ m ∈ mutations, Store.changed s w m.target = true) :
    ¬Overlooked s mutations := by
  rintro ⟨other, hother, -, hclean⟩
  obtain rfl : w = other := Except.ok.inj (h.symm.trans hother)
  obtain ⟨m, hm, htrue⟩ := hchanged
  rw [hclean m hm] at htrue
  cases htrue

theorem run_append (s : State) (front back : List Mutation) :
    run s (front ++ back) = (run s front).bind fun t => run t back := by
  induction front generalizing s with
  | nil => rfl
  | cons m rest ih =>
    cases hv : m.expr.evaluate s with
    | error fault =>
      rw [List.cons_append, run_cons_of_error hv, run_cons_of_error hv]
      rfl
    | ok value => rw [List.cons_append, run_cons_of_ok hv, run_cons_of_ok hv, ih]

theorem run_append_ok {s w : State} {front back : List Mutation}
    (h : run s (front ++ back) = .ok w) : ∃ t, run s front = .ok t ∧ run t back = .ok w := by
  rw [run_append] at h
  cases ht : run s front with
  | error fault =>
    rw [ht] at h
    cases h
  | ok t =>
    rw [ht] at h
    exact ⟨t, rfl, h⟩

theorem get?_run {s w : State} {mutations : List Mutation} (h : run s mutations = .ok w)
    {name : String} (hname : name ∉ mutations.map target) : w.get? name = s.get? name := by
  induction mutations generalizing s with
  | nil =>
    cases h
    rfl
  | cons m rest ih =>
    rw [List.map_cons, List.mem_cons, not_or] at hname
    cases hv : m.expr.evaluate s with
    | error fault =>
      rw [run_cons_of_error hv] at h
      cases h
    | ok value =>
      rw [run_cons_of_ok hv] at h
      rw [ih h hname.2, Table.get?_put, if_neg hname.1]

/-- What is overlooked are binary64 numbers: an overlooked run leaves an assigned variable with a number
that can be confused with the former one. -/
theorem Overlooked.exists_confusable {s : State} {mutations : List Mutation}
    (h : Overlooked s mutations) (htargets : ∀ m ∈ mutations, m.target ∈ s.names) :
    ∃ w, run s mutations = .ok w ∧ ∃ m ∈ mutations, ∃ x y, s.get? m.target = some (.float x) ∧
      w.get? m.target = some (.float y) ∧ x.Confusable y := by
  obtain ⟨w, hrun, hne, hclean⟩ := h
  have hnames : w.names = s.names := names_run hrun htargets
  -- The states differ in some variable, and only targets change.
  obtain ⟨name, hmem, hdiff⟩ : ∃ name ∈ w.names, w.get? name ≠ s.get? name := by
    by_contra hsame
    push Not at hsame
    exact hne (Table.eq_of_get? hnames hsame)
  have hassigned : name ∈ mutations.map target := by
    by_contra hframe
    exact hdiff (get?_run hrun hframe)
  obtain ⟨m, hm, rfl⟩ := List.mem_map.1 hassigned
  obtain ⟨u, hu⟩ := Table.get?_eq_some_of_mem (hnames ▸ hmem)
  obtain ⟨v, hv⟩ := Table.get?_eq_some_of_mem hmem
  have hidentical : u.identical v = true := by simpa [Store.changed, hu, hv] using hclean m hm
  rw [hu, hv] at hdiff
  rcases Value.near_of_identical hidentical with rfl | ⟨x, y, rfl, rfl, hnear⟩
  · exact absurd rfl hdiff
  · have hxy : x ≠ y := by
      rintro rfl
      exact hdiff rfl
    exact ⟨w, hrun, m, hm, x, y, hu, hv, hxy, hnear⟩

end Mutation

namespace Store

variable {label : String}

theorem run_of_steps {mutations : List Mutation} {w reached : Working}
    (h : steps label mutations w = (.ok (), reached)) :
    Mutation.run w.state mutations = .ok reached.state ∧
      ∀ m ∈ mutations, m.target ∈ w.state.names := by
  induction mutations generalizing w with
  | nil =>
    cases h
    exact ⟨rfl, by simp⟩
  | cons m rest ih =>
    rw [steps] at h
    split at h
    · cases h
    · rename_i next hstep
      obtain ⟨value, account, hmem, hvalue, -, rfl⟩ := step_ok hstep
      obtain ⟨hrun, htargets⟩ := ih h
      dsimp only at hrun htargets
      rw [Table.names_put value hmem] at htargets
      rw [Mutation.run_cons_of_ok hvalue]
      exact ⟨hrun, List.forall_mem_cons.2 ⟨hmem, htargets⟩⟩

theorem run_of_apply {s : Store} {a : Action} {dirty : List String} {later : Store}
    (h : s.apply a = (.ok dirty, later)) :
    s.busy = false ∧ (∀ m ∈ a.mutations, m.target ∈ s.state.names) ∧
      ∃ w, Mutation.run s.state a.mutations = .ok w := by
  obtain ⟨hidle, w, hsteps, -⟩ := transact_ok h
  obtain ⟨hrun, htargets⟩ := run_of_steps hsteps
  exact ⟨hidle, htargets, w.state, hrun⟩

/-- Without a meter, an action that is not overlooked leads where its assignments do. -/
theorem apply_of_noticed {s : Store} (hidle : s.busy = false) (hfree : s.account = none) {a : Action}
    (htargets : ∀ m ∈ a.mutations, m.target ∈ s.state.names) {w : State}
    (h : Mutation.run s.state a.mutations = .ok w)
    (hseen : ¬Mutation.Overlooked s.state a.mutations) :
    ∃ dirty, s.apply a = (.ok dirty, { s with state := w }) := by
  have happly := apply_of_run hidle hfree htargets h
  have hstate (hempty : (targets a.mutations).filter (changed s.state w) = []) : w = s.state := by
    by_contra hne
    refine hseen ⟨w, h, hne, fun m hm => ?_⟩
    rw [List.filter_eq_nil_iff] at hempty
    simpa using hempty m.target (mem_targets.2 (List.mem_map_of_mem hm))
  refine ⟨(targets a.mutations).filter (changed s.state w), ?_⟩
  rw [happly]
  split
  · rename_i hempty
    rw [hstate (List.isEmpty_iff.1 hempty)]
  · rfl

theorem apply_of_overlooked {s : Store} (hidle : s.busy = false) (hfree : s.account = none)
    {a : Action} (htargets : ∀ m ∈ a.mutations, m.target ∈ s.state.names)
    (h : Mutation.Overlooked s.state a.mutations) : s.apply a = (.ok [], s) := by
  obtain ⟨w, hrun, -, hclean⟩ := h
  have hempty : (targets a.mutations).filter (changed s.state w) = [] := by
    refine List.filter_eq_nil_iff.2 fun x hx => ?_
    obtain ⟨m, hm, rfl⟩ := List.mem_map.1 (mem_targets.1 hx)
    simp [hclean m hm]
  have happly := apply_of_run hidle hfree htargets hrun
  simpa [hempty] using happly

def applyAll : Store → List Action → Except Failure Store
  | s, [] => .ok s
  | s, a :: rest =>
    match s.apply a with
    | (.error failure, _) => .error failure
    | (.ok _, later) => applyAll later rest

theorem applyAll_of_noticed {s : Store} (hidle : s.busy = false) (hfree : s.account = none)
    {parts : List Action}
    (htargets : ∀ m ∈ parts.flatMap Action.mutations, m.target ∈ s.state.names) {w : State}
    (h : Mutation.run s.state (parts.flatMap Action.mutations) = .ok w)
    (hseen : Action.AllNoticed s.state parts) : applyAll s parts = .ok { s with state := w } := by
  induction parts generalizing s with
  | nil =>
    cases h
    rfl
  | cons a rest ih =>
    rw [List.flatMap_cons] at h htargets
    obtain ⟨hfirst, hlater⟩ := hseen
    obtain ⟨t, hrun, hrest⟩ := Mutation.run_append_ok h
    have hown : ∀ m ∈ a.mutations, m.target ∈ s.state.names := fun m hm =>
      htargets m (List.mem_append_left _ hm)
    have hnames : t.names = s.state.names := Mutation.names_run hrun hown
    obtain ⟨dirty, happly⟩ := apply_of_noticed hidle hfree hown hrun hfirst
    rw [applyAll, happly]
    refine ih (s := { s with state := t }) hidle hfree (fun m hm => ?_) hrest (hlater t hrun)
    exact hnames ▸ htargets m (List.mem_append_right _ hm)

theorem get?_of_assign {s : Store} (hfree : s.account = none) {name : String} {v : Value}
    {dirty : List String} {later : Store} (h : s.assign name v = (.ok dirty, later)) :
    later.state.get? name = some v ∨
      ∃ x y, s.state.get? name = some (.float x) ∧ v = .float y ∧ x.Confusable y ∧ later = s := by
  let a : Action := ⟨"bind:" ++ name, [⟨name, .literal v⟩]⟩
  have happly : s.apply a = (.ok dirty, later) := h
  obtain ⟨hidle, htargets, -⟩ := run_of_apply happly
  have hrun : Mutation.run s.state a.mutations = .ok (s.state.put name v) := rfl
  have hput : (s.state.put name v).get? name = some v := by rw [Table.get?_put, if_pos rfl]
  by_cases hseen : Mutation.Overlooked s.state a.mutations
  · right
    rw [apply_of_overlooked hidle hfree htargets hseen] at happly
    obtain ⟨w, hw, m, hm, x, y, hx, hy, hxy⟩ := hseen.exists_confusable htargets
    obtain rfl : s.state.put name v = w := Except.ok.inj (hrun.symm.trans hw)
    rw [List.mem_singleton.1 hm] at hx hy
    have hv : v = .float y := Option.some.inj (hput.symm.trans hy)
    exact ⟨x, y, hx, hv, hxy, (Prod.mk.inj happly).2.symm⟩
  · left
    obtain ⟨own, hown⟩ := apply_of_noticed hidle hfree htargets hrun hseen
    rw [hown] at happly
    rw [← (Prod.mk.inj happly).2]
    exact hput

/-- Without a meter, an action that succeeds can be split into actions with the same assignments in the same
order: they succeed too and lead to the same state, provided that neither the whole nor a part is
overlooked. What is overlooked leaves a variable with a number that can be confused with the one it held.
An assignment that succeeds takes effect, unless its value can be confused with the one that the variable
holds. -/
theorem parts_agree_with_whole {s : Store} (hfree : s.account = none) :
    (∀ (whole : Action) (parts : List Action), whole.mutations = parts.flatMap Action.mutations →
      ∀ dirty later, s.apply whole = (.ok dirty, later) →
        ¬Mutation.Overlooked s.state whole.mutations → Action.AllNoticed s.state parts →
          applyAll s parts = .ok later) ∧
    (∀ (t : State) (mutations : List Mutation), (∀ m ∈ mutations, m.target ∈ t.names) →
      Mutation.Overlooked t mutations → ∃ w, Mutation.run t mutations = .ok w ∧
        ∃ m ∈ mutations, ∃ x y, t.get? m.target = some (.float x) ∧
          w.get? m.target = some (.float y) ∧ x.Confusable y) ∧
    ∀ name v dirty later, s.assign name v = (.ok dirty, later) →
      later.state.get? name = some v ∨ ∃ x y, s.state.get? name = some (.float x) ∧
        v = .float y ∧ x.Confusable y ∧ later = s := by
  refine ⟨?_, fun t mutations htargets h => h.exists_confusable htargets,
    fun name v dirty later h => get?_of_assign hfree h⟩
  intro whole parts hsplit dirty later h hwhole hparts
  obtain ⟨hidle, htargets, w, hrun⟩ := run_of_apply h
  obtain ⟨own, hown⟩ := apply_of_noticed hidle hfree htargets hrun hwhole
  rw [hown] at h
  cases h
  rw [hsplit] at htargets hrun
  exact applyAll_of_noticed hidle hfree htargets hrun hparts

def levels : Store := ⟨.ofList [("level", .float .zero), ("rises", .int 0)], none, false⟩

def setLevel (x : Binary64) : Mutation := ⟨"level", .literal (.float x)⟩

def countRise : Mutation :=
  ⟨"rises", .binary (.arithmetic .add) (.ident "rises") (.literal (.int 1))⟩

/-- A level is set, and then doubled and counted: in two actions or in one, with the same result. -/
theorem doubling_grouped :
    let set : Action := ⟨"set", [setLevel (.ofInt 1)]⟩
    let double : Action := ⟨"double",
      [⟨"level", .binary (.arithmetic .add) (.ident "level") (.ident "level")⟩, countRise]⟩
    ∃ dirty later, levels.apply ⟨"both", set.mutations ++ double.mutations⟩ = (.ok dirty, later) ∧
      applyAll levels [set, double] = .ok later := by
  intro set double
  have hfirst : ¬Mutation.Overlooked levels.state set.mutations :=
    Mutation.not_overlooked_of_changed rfl ⟨_, List.mem_cons_self, by decide +kernel⟩
  have hlast : ¬Mutation.Overlooked (levels.state.put "level" (.float (.ofInt 1))) double.mutations :=
    Mutation.not_overlooked_of_changed rfl ⟨_, List.mem_cons_self, by decide +kernel⟩
  have hwhole : ¬Mutation.Overlooked levels.state (set.mutations ++ double.mutations) :=
    Mutation.not_overlooked_of_changed rfl ⟨_, List.mem_cons_self, by decide +kernel⟩
  have hparts : Action.AllNoticed levels.state [set, double] := by
    refine ⟨hfirst, fun t ht => ?_⟩
    cases ht
    exact ⟨hlast, fun _ _ => trivial⟩
  obtain ⟨dirty, hdirty, -⟩ := exists_ok_of_any
    (levels.apply ⟨"both", set.mutations ++ double.mutations⟩).1 (fun _ => true) (by decide +kernel)
  have happly : levels.apply ⟨"both", set.mutations ++ double.mutations⟩ =
      (.ok dirty, (levels.apply ⟨"both", set.mutations ++ double.mutations⟩).2) := by rw [← hdirty]
  exact ⟨dirty, _, happly, (parts_agree_with_whole rfl).1 ⟨"both", _⟩ [set, double] rfl dirty _
    happly hwhole hparts⟩

def least : Binary64 := .ofBits 1

/-- A level rises by the least positive number, and the rise is counted. In one action both take effect.
In two, the first is overlooked, so the level stays; and assigning the level on its own has no effect. The
other way round, a level that goes up and comes down to that number ends there in two actions, but the two
in one are overlooked. -/
theorem rise_lost :
    (∃ later last, levels.apply ⟨"warm", [setLevel least, countRise]⟩ = (.ok ["rises"], later) ∧
      applyAll levels [⟨"rise", [setLevel least]⟩, ⟨"count", [countRise]⟩] = .ok last ∧
        later.state.get? "level" = some (.float least) ∧
          last.state.get? "level" = some (.float .zero)) ∧
    levels.assign "level" (.float least) = (.ok [], levels) ∧
    levels.apply ⟨"swing", [setLevel (.ofInt 1), setLevel least]⟩ = (.ok [], levels) ∧
    ∃ last, applyAll levels [⟨"up", [setLevel (.ofInt 1)]⟩, ⟨"down", [setLevel least]⟩] = .ok last ∧
      last.state.get? "level" = some (.float least) := by
  obtain ⟨last, hlast, hlevel⟩ := exists_ok_of_any
    (applyAll levels [⟨"up", [setLevel (.ofInt 1)]⟩, ⟨"down", [setLevel least]⟩])
    (fun last => last.state.get? "level" = some (.float least)) (by decide +kernel)
  exact ⟨⟨_, _, rfl, rfl, rfl, rfl⟩, rfl, rfl, last, hlast, of_decide_eq_true hlevel⟩

end Store

end ReactiveView
