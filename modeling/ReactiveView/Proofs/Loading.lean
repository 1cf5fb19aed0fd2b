import ReactiveView.Application.Load
import ReactiveView.Proofs.Resolution

namespace ReactiveView

theorem not_of_faultIf_nil {condition : Bool} {fault : LoadError}
    (h : faultIf condition fault = []) : condition = false := by
  cases condition with
  | true => cases h
  | false => rfl

theorem CallSite.supplied_of_faults_nil {site : CallSite} {place : Place}
    (h : site.faults place = []) : site.Supplied := by
  rw [CallSite.faults] at h
  split at h
  · cases h
  · rename_i b hb
    have hn := not_of_faultIf_nil h
    simp only [Bool.or_eq_false_iff, decide_eq_false_iff_not] at hn
    exact ⟨b, hb, by omega, by omega⟩

theorem Expr.supplied_of_faults_nil {e : Expr} {declared : List String} {place : Place}
    (h : e.faults declared place = []) : ∀ site ∈ e.calls, site.Supplied := by
  intro site hs
  have hc := (List.append_eq_nil_iff.1 h).2
  exact CallSite.supplied_of_faults_nil (List.flatMap_eq_nil_iff.1 hc site hs)

namespace Program

theorem supplied_of_faults_nil {p : Program} (h : p.faults = []) : ∀ n ∈ p.nodes, n.Supplied := by
  intro n hn site hsite
  obtain ⟨entry, he, hsite⟩ := List.mem_flatMap.1 hsite
  have hprops := (List.append_eq_nil_iff.1 (List.append_eq_nil_iff.1 h).1).2
  have hentry := List.flatMap_eq_nil_iff.1 (List.flatMap_eq_nil_iff.1 hprops n hn) entry he
  obtain ⟨name, value⟩ := entry
  cases value with
  | literal v | color c | ident x => cases hsite
  | expr e =>
    rw [propFaults] at hentry
    split at hentry
    · cases hentry
    · exact Expr.supplied_of_faults_nil (List.append_eq_nil_iff.1 hentry).2 site hsite

end Program

/-- What the view of an application relies on: its index is that of its nodes, and no call in it lacks
arguments. -/
structure Application.Sound (app : Application) : Prop where
  index : app.index = Index.ofNodes app.nodes
  supplied : ∀ n ∈ app.nodes, n.Supplied

theorem Program.sound_of_load {p : Program} {app : Application} (h : p.load = .ok app) :
    app.Sound := by
  obtain ⟨hf, rfl⟩ := load_eq_ok_iff.1 h
  exact ⟨rfl, supplied_of_faults_nil hf⟩

def counter : Program where
  app := "Counter"
  version := .ofInt 1
  state := [("count", .int 0)]
  view := some ⟨"label", .ofList [("value", .ident "count"), ("on_click", .ident "raise")], [], none⟩
  actions :=
    [⟨"raise", [⟨"count", .binary (.arithmetic .add) (.ident "count") (.literal (.int 1))⟩]⟩]

theorem counter_loads : counter.load = .ok counter.application :=
  Program.load_eq_ok_iff.2 ⟨by decide +kernel, rfl⟩

end ReactiveView
