import ReactiveView.Proofs.Display
import ReactiveView.Proofs.Loading

namespace ReactiveView

namespace Table

variable {α : Type}

theorem mem_putEntry {name : String} {value : α} {entries : List (String × α)} {entry : String × α}
    (h : entry ∈ putEntry name value entries) : entry = (name, value) ∨ entry ∈ entries := by
  induction entries with
  | nil => exact Or.inl (List.mem_singleton.1 h)
  | cons first rest ih =>
    rw [putEntry] at h
    split at h
    · rcases List.mem_cons.1 h with rfl | h
      · exact Or.inl rfl
      · exact Or.inr (List.mem_cons_of_mem _ h)
    · rcases List.mem_cons.1 h with rfl | h
      · exact Or.inr List.mem_cons_self
      · exact (ih h).imp_right (List.mem_cons_of_mem _)

theorem mem_names_put {t : Table α} {name other : String} {value : α} :
    other ∈ (t.put name value).names ↔ other = name ∨ other ∈ t.names := by
  rw [names, put, putEntry_names]
  split
  · rename_i h
    exact ⟨Or.inr, fun hor => hor.elim (fun heq => heq ▸ h) id⟩
  · rw [List.mem_append, List.mem_singleton, or_comm]
    rfl

theorem mem_foldl_put {entries : List (String × α)} {t : Table α} {entry : String × α}
    (h : entry ∈ (entries.foldl (fun t entry => t.put entry.1 entry.2) t).entries) :
    entry ∈ t.entries ∨ entry ∈ entries := by
  induction entries generalizing t with
  | nil => exact Or.inl h
  | cons first rest ih =>
    rcases ih h with h | h
    · rcases mem_putEntry h with rfl | h
      · exact Or.inr List.mem_cons_self
      · exact Or.inl h
    · exact Or.inr (List.mem_cons_of_mem _ h)

theorem mem_of_get?_ofList {entries : List (String × α)} {name : String} {value : α}
    (h : (ofList entries).get? name = some value) : (name, value) ∈ entries :=
  (mem_foldl_put (mem_entries h)).resolve_left List.not_mem_nil

theorem mem_names_foldl_put {entries : List (String × α)} {t : Table α} {name : String} :
    name ∈ (entries.foldl (fun t entry => t.put entry.1 entry.2) t).names ↔
      name ∈ t.names ∨ name ∈ entries.map Prod.fst := by
  induction entries generalizing t with
  | nil => simp
  | cons first rest ih =>
    rw [List.foldl_cons, ih, mem_names_put, List.map_cons, List.mem_cons, or_assoc, or_left_comm]

theorem mem_names_ofList {entries : List (String × α)} {name : String} :
    name ∈ (ofList entries).names ↔ name ∈ entries.map Prod.fst :=
  mem_names_foldl_put.trans (or_iff_right List.not_mem_nil)

end Table

theorem mem_of_faultIf_nil {names : List String} {x : String} {fault : LoadError}
    (h : faultIf (!names.contains x) fault = []) : x ∈ names := by
  simpa using not_of_faultIf_nil h

structure Expr.Closed (names : List String) (e : Expr) : Prop where
  reads : ∀ x ∈ e.reads, x ∈ names
  supplied : ∀ site ∈ e.calls, site.Supplied

theorem Expr.closed_of_faults_nil {e : Expr} {declared : List String} {place : Place}
    (h : e.faults declared place = []) : e.Closed declared where
  reads x hx := mem_of_faultIf_nil (List.flatMap_eq_nil_iff.1 (List.append_eq_nil_iff.1 h).1 x hx)
  supplied := supplied_of_faults_nil h

theorem closed_of_actionFaults_nil {declared seen : List String} {actions : List Action}
    (h : actionFaults declared seen actions = []) :
    ∀ a ∈ actions, ∀ m ∈ a.mutations, m.target ∈ declared ∧ m.expr.Closed declared := by
  induction actions generalizing seen with
  | nil => exact fun a ha => absurd ha List.not_mem_nil
  | cons first rest ih =>
    obtain ⟨hfirst, hrest⟩ := List.append_eq_nil_iff.1 h
    intro a ha m hm
    rcases List.mem_cons.1 ha with rfl | ha
    · have hfaults := List.flatMap_eq_nil_iff.1 (List.append_eq_nil_iff.1 hfirst).2 m hm
      obtain ⟨htarget, hexpr⟩ := List.append_eq_nil_iff.1 hfaults
      exact ⟨mem_of_faultIf_nil htarget, Expr.closed_of_faults_nil hexpr⟩
    · exact ih hrest a ha m hm

theorem Node.mem_handlersOf {entries : List (String × PropValue)} {property action : String}
    (h : (property, action) ∈ handlersOf entries) :
    (property, .ident action) ∈ entries ∧ isHandlerProp property = true := by
  induction entries with
  | nil => cases h
  | cons entry rest ih =>
    obtain ⟨name, value⟩ := entry
    cases value with
    | ident target =>
      rw [handlersOf] at h
      split at h
      · rename_i hname
        rcases List.mem_cons.1 h with heq | h
        · cases heq
          exact ⟨List.mem_cons_self, hname⟩
        · exact (ih h).imp_left (List.mem_cons_of_mem _)
      · exact (ih h).imp_left (List.mem_cons_of_mem _)
    | literal v | color c | expr e =>
      rw [handlersOf] at h
      · exact (ih h).imp_left (List.mem_cons_of_mem _)
      · rintro _ _ ⟨⟩

/-- Every name in an application stands for something: a variable of its state, a function with so many
arguments, or an action. Where only runtime values are allowed, no color stands. -/
structure Application.Closed (app : Application) : Prop where
  mutations : ∀ name a, app.actions.get? name = some a → a.name = name ∧
    ∀ m ∈ a.mutations, m.target ∈ app.initialState.names ∧ m.expr.Closed app.initialState.names
  reads : ∀ n ∈ app.nodes, ∀ facet, ∀ x ∈ n.readsIn facet, x ∈ app.initialState.names
  props : ∀ n ∈ app.nodes, ∀ entry ∈ n.node.props.entries, ∀ e, entry.2 = .expr e →
    e.Closed app.initialState.names
  handlers : ∀ n ∈ app.nodes, ∀ property action, (Node.shell n).handlers.get? property = some action →
    ∃ a, app.actions.get? action = some a
  noColor : ∀ n ∈ app.nodes, ∀ p, n.node.props.get? visibleProp = some p ∨
    n.node.props.get? bindProp = some p → ∀ c, p ≠ .color c

namespace Program

variable {p : Program}

theorem mem_names_initialState {x : String} :
    x ∈ p.application.initialState.names ↔ x ∈ p.stateNames := Table.mem_names_ofList

section Faults

variable (h : p.faults = [])

include h

theorem actionFaults_nil : actionFaults p.stateNames [] p.actions = [] :=
  (List.append_eq_nil_iff.1 (List.append_eq_nil_iff.1 (List.append_eq_nil_iff.1 h).1).1).2

theorem propFaults_nil {n : ArenaNode} (hn : n ∈ p.nodes) {entry : String × PropValue}
    (he : entry ∈ n.node.props.entries) : propFaults p.stateNames p.actionNames n entry = [] := by
  have hprops := (List.append_eq_nil_iff.1 (List.append_eq_nil_iff.1 h).1).2
  exact List.flatMap_eq_nil_iff.1 (List.flatMap_eq_nil_iff.1 hprops n hn) entry he

theorem mem_stateNames_of_read {n : ArenaNode} (hn : n ∈ p.nodes) {read : Read}
    (hread : read ∈ n.reads) : read.name ∈ p.stateNames := by
  have hreads := (List.append_eq_nil_iff.1 h).2
  exact mem_of_faultIf_nil
    (List.flatMap_eq_nil_iff.1 (List.flatMap_eq_nil_iff.1 hreads n hn) read hread)

theorem closed_of_prop {n : ArenaNode} (hn : n ∈ p.nodes) {name : String} {e : Expr}
    (he : (name, .expr e) ∈ n.node.props.entries) : e.Closed p.stateNames := by
  have hfaults := propFaults_nil h hn he
  rw [propFaults] at hfaults
  split at hfaults
  · cases hfaults
  · exact Expr.closed_of_faults_nil (List.append_eq_nil_iff.1 hfaults).2

theorem exists_action_of_handler {n : ArenaNode} (hn : n ∈ p.nodes) {property action : String}
    (hget : (Node.shell n).handlers.get? property = some action) :
    ∃ a, p.application.actions.get? action = some a := by
  obtain ⟨he, hprop⟩ := Node.mem_handlersOf (Table.mem_of_get?_ofList hget)
  have hfaults := propFaults_nil h hn he
  rw [propFaults] at hfaults
  rw [if_pos hprop] at hfaults
  have hname : action ∈ p.actionNames := mem_of_faultIf_nil hfaults
  refine Table.get?_eq_some_of_mem (Table.mem_names_ofList.2 ?_)
  rwa [List.map_map]

theorem noColor_of_faults_nil {n : ArenaNode} (hn : n ∈ p.nodes) {value : PropValue}
    (hget : n.node.props.get? visibleProp = some value ∨ n.node.props.get? bindProp = some value)
    (c : Color) : value ≠ .color c := by
  rintro rfl
  rcases hget with hget | hget
  · have hfaults := propFaults_nil h hn (Table.mem_entries hget)
    have hplace : isHandlerProp visibleProp = false := by decide
    simp [propFaults, hplace, faultIf, PropValue.isColor] at hfaults
  · have hfaults := propFaults_nil h hn (Table.mem_entries hget)
    have hplace : isHandlerProp bindProp = false := by decide
    simp [propFaults, hplace, faultIf, PropValue.isIdent] at hfaults

end Faults

theorem closed_of_load {app : Application} (hload : p.load = .ok app) : app.Closed := by
  obtain ⟨h, rfl⟩ := load_eq_ok_iff.1 hload
  have hclosed (e : Expr) (he : e.Closed p.stateNames) :
      e.Closed p.application.initialState.names :=
    ⟨fun x hx => mem_names_initialState.2 (he.reads x hx), he.supplied⟩
  refine ⟨fun name a ha => ?_, fun n hn facet x hx => ?_, fun n hn entry he e hexpr => ?_,
    fun n hn property action => exists_action_of_handler h hn,
    fun n hn value hget => noColor_of_faults_nil h hn hget⟩
  · obtain ⟨a', ha', heq⟩ := List.mem_map.1 (Table.mem_of_get?_ofList ha)
    obtain ⟨rfl, rfl⟩ := Prod.mk.inj heq
    refine ⟨rfl, fun m hm => ?_⟩
    obtain ⟨htarget, hexpr⟩ := closed_of_actionFaults_nil (actionFaults_nil h) a' ha' m hm
    exact ⟨mem_names_initialState.2 htarget, hclosed _ hexpr⟩
  · obtain ⟨read, hread, -, rfl⟩ := ArenaNode.mem_readsIn.1 hx
    exact mem_names_initialState.2 (mem_stateNames_of_read h hn hread)
  · obtain ⟨name, value⟩ := entry
    obtain rfl : value = .expr e := hexpr
    exact hclosed e (closed_of_prop h hn he)

end Program

end ReactiveView
