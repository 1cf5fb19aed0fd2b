import ReactiveView.Proofs.Sequencing

namespace ReactiveView

namespace Binary64

theorem numEq_self (x : Binary64) : x.numEq x = !x.isNaN := by
  cases x with
  | nan => rfl
  | signed negative code => simp [numEq, isNaN]

theorem close_self (x : Binary64) : x.close x = !x.isNaN := by
  rw [close, numEq_self]
  cases x with
  | nan => rfl
  | signed negative code => rfl

end Binary64

theorem Value.identical_self (v : Value) : v.identical v = decide (v ≠ .float .nan) := by
  cases v with
  | float x =>
    rw [identical, Binary64.close_self]
    cases x with
    | nan => rfl
    | signed negative code => simp [Binary64.isNaN]
  | int n | str s | bool b | null => simp [identical]

theorem Value.nan_identical (v : Value) : (Value.float .nan).identical v = false := by
  cases v <;> rfl

theorem Table.put_of_get? {α : Type} {t : Table α} {name : String} {value : α}
    (h : t.get? name = some value) : t.put name value = t := by
  have hmem : name ∈ t.names := List.mem_map_of_mem (Table.mem_entries h)
  refine Table.eq_of_get? (Table.names_put value hmem) fun x _ => ?_
  rw [Table.get?_put]
  split
  · rename_i hx
    rw [hx, h]
  · rfl

def Mutation.Restores (s : State) (m : Mutation) : Prop :=
  ∃ v, s.get? m.target = some v ∧ m.expr.evaluate s = .ok v

namespace Store

variable {label : String}

theorem changed_self {s : State} {x : String} :
    changed s s x = true ↔ s.get? x = some (.float .nan) := by
  cases hx : s.get? x with
  | none => simp [changed, hx]
  | some v => simp [changed, hx, Value.identical_self]

/-- A transaction that succeeds is not run inside another. It reports the targets that its working copy
changes, and installs the copy if there are any. -/
theorem transact_ok {s : Store} {mutations : List Mutation} {dirty : List String} {later : Store}
    (h : s.transact label mutations = (.ok dirty, later)) :
    s.busy = false ∧ ∃ w, steps label mutations ⟨s.state, s.account, 0⟩ = (.ok (), w) ∧
      dirty = (targets mutations).filter (changed s.state w.state) ∧
      later.state = if dirty.isEmpty then s.state else w.state := by
  cases hb : s.busy with
  | true =>
    rw [transact_of_busy hb] at h
    cases h
  | false =>
    rw [transact_of_idle hb] at h
    split at h
    · cases h
    · rename_i w hsteps
      rw [commit] at h
      split at h
      · cases h
      · cases h
        exact ⟨rfl, w, hsteps, rfl, rfl⟩

theorem mem_dirty_iff_of_kept {s : Store} {mutations : List Mutation} {dirty : List String}
    {later : Store} (h : s.transact label mutations = (.ok dirty, later)) {x : String} {v : Value}
    (hbefore : s.state.get? x = some v) (hafter : later.state.get? x = some v) :
    x ∈ dirty ↔ x ∈ mutations.map Mutation.target ∧ v = .float .nan := by
  obtain ⟨-, w, hsteps, hdirty, hlater⟩ := transact_ok h
  rw [hdirty, List.mem_filter, mem_targets]
  refine and_congr_right fun hx => ⟨fun hchanged => ?_, ?_⟩
  · -- something is reported, so the working copy was installed and holds the same value
    have hne : dirty ≠ [] := by
      rw [hdirty]
      exact List.ne_nil_of_mem (List.mem_filter.2 ⟨mem_targets.2 hx, hchanged⟩)
    rw [if_neg (by simpa using hne)] at hlater
    rw [hlater] at hafter
    simpa [changed, hbefore, hafter, Value.identical_self] using hchanged
  · rintro rfl
    have hmem : x ∈ w.state.names := by
      rw [names_of_steps hsteps]
      exact List.mem_map_of_mem (Table.mem_entries hbefore)
    obtain ⟨u, hu⟩ := Table.get?_eq_some_of_mem hmem
    rw [changed, hbefore, hu]
    exact congrArg not (Value.nan_identical u)

theorem state_steps_of_restores {mutations : List Mutation} {w reached : Working}
    (h : steps label mutations w = (.ok (), reached))
    (hkeep : ∀ m ∈ mutations, m.Restores w.state) : reached.state = w.state := by
  induction mutations generalizing w with
  | nil =>
    cases h
    rfl
  | cons m rest ih =>
    rw [steps] at h
    split at h
    · cases h
    · rename_i next hstep
      obtain ⟨value, account, -, hvalue, -, rfl⟩ := step_ok hstep
      obtain ⟨v, hv, heval⟩ := hkeep m List.mem_cons_self
      obtain rfl : v = value := Except.ok.inj (heval.symm.trans hvalue)
      have hput : w.state.put m.target v = w.state := Table.put_of_get? hv
      have hrest := ih h fun later hl => by
        rw [hput]
        exact hkeep later (List.mem_cons_of_mem _ hl)
      exact hrest.trans hput

end Store

/-- A call that succeeds reports a variable that has the same value afterwards just if the call assigns it
and the value is not a number. So a call that writes back what the variables hold changes none and reports
those that hold what is not a number; writing back a single value reports nothing if it is another one. -/
theorem StoreCall.reported_iff_of_kept {s : Store} {call : StoreCall} {dirty : List String}
    {later : Store} (h : call.run s = (.ok dirty, later)) :
    (∀ x v, s.state.get? x = some v → later.state.get? x = some v →
      (x ∈ dirty ↔ x ∈ call.mutations.map Mutation.target ∧ v = .float .nan)) ∧
    ((∀ m ∈ call.mutations, m.Restores s.state) → later.state = s.state ∧
      ∀ x, x ∈ dirty ↔
        x ∈ call.mutations.map Mutation.target ∧ s.state.get? x = some (.float .nan)) ∧
    ∀ x v, call = .assign x v → s.state.get? x = some v →
      dirty = if v = .float .nan then [x] else [] := by
  rw [run_eq_transact] at h
  obtain ⟨-, w, hsteps, hdirty, hlater⟩ := Store.transact_ok h
  have hrestored (hkeep : ∀ m ∈ call.mutations, m.Restores s.state) : w.state = s.state :=
    Store.state_steps_of_restores hsteps hkeep
  refine ⟨fun x v hbefore hafter => Store.mem_dirty_iff_of_kept h hbefore hafter, ?_, ?_⟩
  · intro hkeep
    rw [hrestored hkeep] at hdirty hlater
    refine ⟨by simpa using hlater, fun x => ?_⟩
    rw [hdirty, List.mem_filter, Store.mem_targets, Store.changed_self]
  · rintro x v rfl hx
    have hw : w.state = s.state := hrestored fun m hm => by
      rw [List.mem_singleton.1 hm]
      exact ⟨v, hx, rfl⟩
    have hchanged : Store.changed s.state s.state x = decide (v = .float .nan) := by
      rw [Bool.eq_iff_iff, Store.changed_self, hx]
      simp
    have htargets : Store.targets (StoreCall.assign x v).mutations = [x] := by
      simp [Store.targets, mutations, List.eraseDups_cons]
    rw [hdirty, hw, htargets, List.filter_cons, hchanged]
    simp

/-- A count and a ratio are written back. Both stay; the ratio is not a number, and it alone is
reported. -/
theorem ratio_written_back :
    let s : Store := ⟨.ofList [("count", .int 3), ("ratio", .float .nan)], some {}, false⟩
    let keep : StoreCall :=
      .apply ⟨"keep", [⟨"count", .ident "count"⟩, ⟨"ratio", .ident "ratio"⟩]⟩
    ∃ dirty later, keep.run s = (.ok dirty, later) ∧ later.state = s.state ∧ "count" ∉ dirty ∧
      "ratio" ∈ dirty := by
  intro s keep
  obtain ⟨dirty, hdirty, -⟩ := exists_ok_of_any (keep.run s).1 (fun _ => true) (by decide +kernel)
  have hrun : keep.run s = (.ok dirty, (keep.run s).2) := by rw [← hdirty]
  have hkeep : ∀ m ∈ keep.mutations, m.Restores s.state := by
    intro m hm
    rcases List.mem_cons.1 hm with rfl | hm
    · exact ⟨.int 3, rfl, rfl⟩
    · rw [List.mem_singleton.1 hm]
      exact ⟨.float .nan, rfl, rfl⟩
  obtain ⟨hstate, hreported⟩ := (StoreCall.reported_iff_of_kept hrun).2.1 hkeep
  have hcount : "count" ∉ dirty := fun h => nomatch ((hreported "count").1 h).2
  exact ⟨dirty, _, hrun, hstate, hcount, (hreported "ratio").2 ⟨by decide +kernel, rfl⟩⟩

/-- A ratio that is not a number is assigned the value that it has, and is reported. -/
theorem ratio_reported :
    ∃ s : Store, Store.create (.ofList [("ratio", .float .nan)]) none = .ok s ∧
      s.state.get? "ratio" = some (.float .nan) ∧
      (StoreCall.assign "ratio" (.float .nan)).run s = (.ok ["ratio"], s) :=
  ⟨⟨.ofList [("ratio", .float .nan)], none, false⟩, rfl, rfl, rfl⟩

end ReactiveView
