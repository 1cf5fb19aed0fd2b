import ReactiveView.Proofs.Mirroring
import ReactiveView.Proofs.Moments

namespace ReactiveView

variable {dom : Dom} {app : Application}

/-- The page of a running application follows its view. -/
structure Core.Shows (app : Application) (core : Core (Page dom)) : Prop where
  app_eq : core.app = app
  follows : core.sink.Follows app core.tree

theorem Core.Shows.congr {core later : Core (Page dom)} (h : core.Shows app) (happ : later.app = core.app)
    (htree : later.tree = core.tree) (hsink : later.sink = core.sink) : later.Shows app :=
  ⟨happ.trans h.app_eq, by rw [hsink, htree]; exact h.follows⟩

theorem Core.Shows.escalate {core : Core (Page dom)} (h : core.Shows app) (failure : Failure) (dropped : Nat) :
    (World.escalate failure dropped core).Shows app := by
  cases failure <;> simp only [World.escalate] <;> split <;> first | exact h | exact h.congr rfl rfl rfl

theorem Core.Shows.abandon {world : World (Page dom)} (h : world.2.Shows app) (failure : Failure) :
    (World.abandon failure world).2.Shows app := by
  cases failure with
  | sandbox cause => exact h.escalate (.sandbox cause) _
  | load cause => exact h.escalate (.load cause) 0
  | evaluation cause => exact h.escalate (.evaluation cause) 0
  | action cause => exact h.escalate (.action cause) 0
  | defect cause => exact h.escalate (.defect cause) 0

theorem Launch.shows_of_start {limits : Limits} {sink : Page dom} {world : World (Page dom)}
    (h : (Launch.start app limits (Page.renderer dom) sink).outcome = .ok world) : world.2.Shows app := by
  rw [Launch.start] at h
  split at h
  · cases h
  · dsimp only at h
    split at h
    · cases h
    · rename_i store _ rendering hp
      have hfollows := Page.Follows.mount sink hp
      split at h
      · cases h
      · rename_i mounted hmount
        cases h
        have hmounted : sink.mount rendering.tree rendering.patches = (.ok (), mounted) := hmount
        rw [hmounted] at hfollows
        exact ⟨rfl, hfollows rfl⟩

namespace World

theorem perform_shows (calls : Calls (Page dom)) {world : World (Page dom)} (h : world.2.Shows app)
    (change : Store → Except Failure (List String) × Store) :
    (perform calls (Page.renderer dom) change world).2.2.Shows app := by
  obtain ⟨q, core⟩ := world
  obtain ⟨rfl, hfollows⟩ := h
  rw [perform_eq]
  rcases core.revise_cases change with ⟨failure, store, -, hr⟩ |
    ⟨dirty, store, pass, failure, -, -, -, hr⟩ | ⟨dirty, store, pass, rendering, -, rfl, ho, hr⟩
  · rw [hr]
    exact ⟨rfl, hfollows⟩
  · rw [hr]
    exact ⟨rfl, hfollows⟩
  · have hlater := hfollows.apply ho
    rw [hr, present]
    dsimp only
    split
    · rename_i hempty
      rw [List.isEmpty_iff.1 hempty] at hlater
      exact ⟨rfl, hlater⟩
    · exact ⟨rfl, hlater⟩

theorem executeWith_shows (calls : Calls (Page dom)) {world : World (Page dom)}
    (h : world.2.Shows app) (name : String) :
    (executeWith calls (Page.renderer dom) name world).2.2.Shows app := by
  rw [executeWith]
  split
  · exact h
  · have hperformed := perform_shows calls h fun store => store.execute world.2.app.actions name
    split
    · rename_i heq
      rw [heq] at hperformed
      exact hperformed
    · rename_i failure later heq
      rw [heq] at hperformed
      exact Core.Shows.abandon hperformed failure

theorem runRequest_shows (calls : Calls (Page dom)) {world : World (Page dom)}
    (h : world.2.Shows app) (request : Request) :
    (runRequest calls (Page.renderer dom) request world).2.2.Shows app := by
  cases hr : responseTo world.2 request with
  | error reason =>
    rw [runRequest, handleEvent, hr]
    exact h.congr rfl rfl rfl
  | ok change =>
    have hperformed := perform_shows calls h change
    rw [runRequest, handleEvent, hr]
    dsimp only
    generalize perform calls (Page.renderer dom) change world = result at hperformed ⊢
    obtain ⟨outcome, later⟩ := result
    cases outcome with
    | ok execution => exact hperformed.congr rfl rfl rfl
    | error failure => cases failure <;> exact hperformed.congr rfl rfl rfl

theorem drain_shows (calls : Calls (Page dom)) (budget : Nat) {world : World (Page dom)} (h : world.2.Shows app) :
    (TaskQueue.drain (runRequest calls (Page.renderer dom)) budget world).2.2.Shows app := by
  induction budget generalizing world with
  | zero =>
    rw [TaskQueue.drain]
    split <;> exact h
  | succ budget ih =>
    rw [TaskQueue.drain]
    split
    · exact h
    · rename_i request started _
      have hstarted : ((started, world.2) : World (Page dom)).2.Shows app := h
      have hrun := runRequest_shows calls hstarted request
      split
      · rename_i heq
        rw [heq] at hrun
        exact hrun
      · rename_i heq
        rw [heq] at hrun
        exact ih hrun

theorem dispatchWith_shows (calls : Calls (Page dom)) {world : World (Page dom)}
    (h : world.2.Shows app) (request : Request) :
    (dispatchWith calls (Page.renderer dom) request world).2.2.Shows app := by
  rw [dispatchWith]
  split
  · exact h
  · dsimp only
    split
    · exact h
    · rename_i hidle
      have hbegun : (((world.1.enqueue request).begin, world.2) : World (Page dom)).2.Shows app := h
      have hdrained := drain_shows calls (world.1.enqueue request).limit.most.toNat hbegun
      rw [TaskQueue.flush, if_neg hidle]
      dsimp only
      generalize TaskQueue.drain _ _ _ = result at hdrained ⊢
      obtain ⟨outcome, q, core⟩ := result
      have hsettled : ({ core with pending := [] } : Core (Page dom)).Shows app := hdrained.congr rfl rfl rfl
      cases outcome with
      | ok _ => exact hsettled
      | error failure => exact hsettled.escalate _ _

theorem call_shows {depth : Nat} {world : World (Page dom)} (h : world.2.Shows app) (call : Call) :
    (world.after (Page.renderer dom) depth call).2.Shows app := by
  cases call with
  | execute name =>
    cases depth with
    | zero => exact h
    | succ depth => exact executeWith_shows _ h name
  | dispatch request =>
    cases depth with
    | zero => exact h
    | succ depth => exact dispatchWith_shows _ h request
  | value name | state | tree | fatal | memory => exact h

/-- Whatever is called on an application that has a page for its renderer, the page mirrors its view. -/
theorem run_mirrors {p : Program} (hload : p.load = .ok app) {limits : Limits} {sink : Page dom}
    {world : World (Page dom)} (hstart : (Launch.start app limits (Page.renderer dom) sink).outcome = .ok world)
    (depth : Nat) (cs : List Call) :
    (run (Page.renderer dom) depth world cs).2.sink.Mirrors app (run (Page.renderer dom) depth world cs).2.tree := by
  have hfirst := Launch.shows_of_start hstart
  have hrun : (run (Page.renderer dom) depth world cs).2.Shows app := by
    clear hstart
    induction cs generalizing world with
    | nil => exact hfirst
    | cons call rest ih => exact ih (call_shows hfirst call)
  exact Page.follows_mirrors hload hrun.follows

end World

end ReactiveView
