import ReactiveView.Proofs.Revision
import ReactiveView.Session.Call

namespace ReactiveView

variable {σ : Type}

/-- A relation holds from a start through some points in order to an end. -/
def Along {α : Type} (P : α → α → Prop) : α → List α → α → Prop
  | a, [], b => P a b
  | a, c :: rest, b => P a c ∧ Along P c rest b

namespace Along

variable {α : Type} {P : α → α → Prop}

theorem before (htrans : ∀ a b c, P a b → P b c → P a c) {a b c : α} {points : List α}
    (hab : P a b) (h : Along P b points c) : Along P a points c := by
  cases points with
  | nil => exact htrans _ _ _ hab h
  | cons point rest => exact ⟨htrans _ _ _ hab h.1, h.2⟩

theorem append (htrans : ∀ a b c, P a b → P b c → P a c) {a b c : α} {first second : List α}
    (h : Along P a first b) (h' : Along P b second c) : Along P a (first ++ second) c := by
  induction first generalizing a with
  | nil => exact before htrans h h'
  | cons point rest ih => exact ⟨h.1, ih h.2⟩

theorem after (htrans : ∀ a b c, P a b → P b c → P a c) {a b c : α} {points : List α}
    (h : Along P a points b) (hbc : P b c) : Along P a points c := by
  have hlast : Along P b [] c := hbc
  have hall := append htrans h hlast
  rwa [List.append_nil] at hall

theorem pairwise (htrans : ∀ a b c, P a b → P b c → P a c) {a b : α} {points : List α}
    (h : Along P a points b) : (a :: points ++ [b]).Pairwise P := by
  induction points generalizing a with
  | nil => exact List.pairwise_pair.2 h
  | cons point rest ih =>
    have hrest := ih h.2
    refine List.pairwise_cons.2 ⟨fun c hc => ?_, hrest⟩
    rcases List.mem_cons.1 hc with rfl | hc
    · exact h.1
    · exact htrans _ _ _ h.1 ((List.pairwise_cons.1 hrest).1 c hc)

end Along

structure Moments (σ : Type) where
  execute : String → World σ → List (Core σ)
  dispatch : Request → World σ → List (Core σ)

def Reaction.moments (calls : Calls σ) (inside : Moments σ) : Reaction σ → World σ → List (Core σ)
  | .done, world => [world.2]
  | .fail _, world => [world.2]
  | .update change next, (q, core) =>
    core :: moments calls inside next (q, { core with sink := change core.sink })
  | .consult next, (q, core) => core :: moments calls inside (next core.sink) (q, core)
  | .look next, (q, core) => core :: moments calls inside (next core.glimpse) (q, core)
  | .weigh next, (q, core) => core :: moments calls inside (next core.meter) (q, core)
  | .execute name next, world =>
    let (answer, later) := calls.execute name world
    world.2 :: (inside.execute name world ++ moments calls inside (next answer) later)
  | .dispatch request next, world =>
    let (answer, later) := calls.dispatch request world
    world.2 :: (inside.dispatch request world ++ moments calls inside (next answer) later)

namespace World

def presentMoments (calls : Calls σ) (inside : Moments σ) (r : Renderer σ)
    (q : TaskQueue Request) : Except Failure (List String × Rendering) × Core σ → List (Core σ)
  | (.error _, _) => []
  | (.ok (dirty, rendering), core) =>
    if rendering.patches.isEmpty then []
    else
      (r.apply rendering.patches rendering.tree).moments calls inside
        (q, core.write [updatedLine dirty rendering.patches])

def performMoments (calls : Calls σ) (inside : Moments σ) (r : Renderer σ)
    (change : Store → Except Failure (List String) × Store) (world : World σ) : List (Core σ) :=
  presentMoments calls inside r world.1 (world.2.revise change)

def executeMoments (calls : Calls σ) (inside : Moments σ) (r : Renderer σ) (name : String)
    (world : World σ) : List (Core σ) :=
  match world.2.fatal with
  | some _ => []
  | none =>
    performMoments calls inside r (fun store => store.execute world.2.app.actions name) world

def requestMoments (calls : Calls σ) (inside : Moments σ) (r : Renderer σ) (request : Request)
    (world : World σ) : List (Core σ) :=
  match responseTo world.2 request with
  | .error _ => []
  | .ok change => performMoments calls inside r change world

def drainMoments (calls : Calls σ) (inside : Moments σ) (r : Renderer σ) :
    Nat → World σ → List (Core σ)
  | 0, _ => []
  | budget + 1, (q, core) =>
    match q.next? with
    | none => []
    | some (request, started) =>
      requestMoments calls inside r request (started, core) ++
        match runRequest calls r request (started, core) with
        | (.error _, _) => []
        | (.ok (), later) => drainMoments calls inside r budget later

def dispatchMoments (calls : Calls σ) (inside : Moments σ) (r : Renderer σ) (request : Request)
    (world : World σ) : List (Core σ) :=
  match world.2.fatal with
  | some _ => []
  | none =>
    let q := world.1.enqueue request
    if q.running then [] else drainMoments calls inside r q.limit.most.toNat (q.begin, world.2)

def moments (r : Renderer σ) : Nat → Moments σ
  | 0 => ⟨fun _ _ => [], fun _ _ => []⟩
  | depth + 1 =>
    ⟨executeMoments (calls r depth) (moments r depth) r,
      dispatchMoments (calls r depth) (moments r depth) r⟩

end World

namespace Core

/-- A relation that survives everything a call does: whatever leaves state and view alone, the end of
an application, and each revision of the view. -/
structure Law (P : Core σ → Core σ → Prop) : Prop where
  trans : ∀ a b c, P a b → P b c → P a c
  alike : ∀ core later, core.Alike later → P core later
  strike : ∀ core cause, P core { core with fatal := some cause }
  revise : ∀ core change, core.app.Offers change →
    P core ((core.revise change).2.struck (core.revise change).1)

end Core

structure Calls.Keep (P : Core σ → Core σ → Prop) (calls : Calls σ) (inside : Moments σ) : Prop where
  execute : ∀ name world,
    Along P world.2 (inside.execute name world) (calls.execute name world).2.2
  dispatch : ∀ request world,
    Along P world.2 (inside.dispatch request world) (calls.dispatch request world).2.2

section Lifting

variable {P : Core σ → Core σ → Prop} (law : Core.Law P)

include law

theorem Core.Law.refl (core : Core σ) : P core core := law.alike core core (.refl core)

theorem Core.Law.struck {α : Type} (outcome : Except Failure α) (core : Core σ) :
    P core (core.struck outcome) := by
  simp only [Core.struck]
  split
  · exact law.strike core _
  · exact law.refl core

theorem Core.Law.escalate {α : Type} (failure : Failure) (dropped : Nat) (core : Core σ) :
    P (core.struck (.error failure : Except Failure α)) (World.escalate failure dropped core) :=
  law.alike _ _ (Core.alike_escalate failure dropped core)

variable {calls : Calls σ} {inside : Moments σ} (hcalls : calls.Keep P inside)

include hcalls

theorem Reaction.along (reaction : Reaction σ) (world : World σ) :
    Along P world.2 (reaction.moments calls inside world) (reaction.run calls world).2.2 := by
  induction reaction generalizing world with
  | done => exact ⟨law.refl _, law.refl _⟩
  | fail failure => exact ⟨law.refl _, law.refl _⟩
  | update change next ih =>
    have hsink := law.alike world.2 { world.2 with sink := change world.2.sink } ⟨rfl, rfl, rfl, rfl⟩
    exact ⟨law.refl _, (ih (world.1, _)).before law.trans hsink⟩
  | consult next ih => exact ⟨law.refl _, ih _ world⟩
  | look next ih => exact ⟨law.refl _, ih _ world⟩
  | weigh next ih => exact ⟨law.refl _, ih _ world⟩
  | execute name next ih =>
    exact ⟨law.refl _, (hcalls.execute name world).append law.trans (ih _ _)⟩
  | dispatch request next ih =>
    exact ⟨law.refl _, (hcalls.dispatch request world).append law.trans (ih _ _)⟩

namespace World

variable (r : Renderer σ)

theorem present_along (q : TaskQueue Request)
    (result : Except Failure (List String × Rendering) × Core σ) :
    Along P (result.2.struck result.1) (presentMoments calls inside r q result)
      ((present calls r q result).2.2.struck (present calls r q result).1) := by
  obtain ⟨outcome, core⟩ := result
  cases outcome with
  | error failure =>
    rw [presentMoments, present]
    rw [Core.struck_error failure]
    exact law.refl _
  | ok revised =>
    obtain ⟨dirty, rendering⟩ := revised
    rw [presentMoments, present]
    dsimp only
    split
    · exact law.refl _
    · have hline := law.alike _ _ (Core.alike_write core [updatedLine dirty rendering.patches])
      have hall := (Reaction.along law hcalls (r.apply rendering.patches rendering.tree)
        (q, core.write [updatedLine dirty rendering.patches])).before law.trans hline
      split
      · rename_i failure later hrun
        rw [hrun] at hall
        exact hall.after law.trans (law.struck _ _)
      · rename_i later hrun
        rw [hrun] at hall
        exact hall

theorem perform_along {change : Store → Except Failure (List String) × Store} (world : World σ)
    (hchange : world.2.app.Offers change) :
    Along P world.2 (performMoments calls inside r change world)
      ((perform calls r change world).2.2.struck (perform calls r change world).1) := by
  obtain ⟨q, core⟩ := world
  rw [perform_eq]
  exact (present_along law hcalls r q _).before law.trans (law.revise core change hchange)

theorem executeWith_along (name : String) (world : World σ) :
    Along P world.2 (executeMoments calls inside r name world)
      (executeWith calls r name world).2.2 := by
  rw [executeMoments, executeWith]
  cases world.2.fatal with
  | some cause => exact law.refl _
  | none =>
    dsimp only
    have hall := perform_along law hcalls r world (.execute name)
    generalize perform calls r _ world = result at hall ⊢
    obtain ⟨outcome, later⟩ := result
    cases outcome with
    | ok execution => exact hall
    | error failure =>
      refine hall.after law.trans ?_
      cases failure with
      | sandbox cause => exact law.escalate _ _ _
      | load cause | evaluation cause | action cause | defect cause => exact law.escalate _ 0 _

theorem runRequest_along (request : Request) (world : World σ) :
    Along P world.2 (requestMoments calls inside r request world)
      ((runRequest calls r request world).2.2.struck (runRequest calls r request world).1) := by
  rw [requestMoments, runRequest, handleEvent]
  cases hr : responseTo world.2 request with
  | error reason => exact law.alike _ _ ⟨rfl, rfl, rfl, rfl⟩
  | ok change =>
    dsimp only
    have hall := perform_along law hcalls r world (offers_of_responseTo hr)
    generalize perform calls r change world = result at hall ⊢
    obtain ⟨outcome, later⟩ := result
    cases outcome with
    | ok execution => exact hall.after law.trans (law.alike _ _ ⟨rfl, rfl, rfl, rfl⟩)
    | error failure =>
      cases failure with
      | action error => exact hall.after law.trans (law.alike _ _ ⟨rfl, rfl, rfl, rfl⟩)
      | sandbox cause | load cause | evaluation cause | defect cause => exact hall

theorem drain_along (budget : Nat) (world : World σ) :
    Along P world.2 (drainMoments calls inside r budget world)
      ((TaskQueue.drain (runRequest calls r) budget world).2.2.struck
        (TaskQueue.drain (runRequest calls r) budget world).1) := by
  induction budget generalizing world with
  | zero =>
    rw [drainMoments, TaskQueue.drain]
    split <;> exact law.refl _
  | succ budget ih =>
    obtain ⟨q, core⟩ := world
    rw [drainMoments, TaskQueue.drain]
    cases q.next? with
    | none => exact law.refl _
    | some next =>
      obtain ⟨request, started⟩ := next
      dsimp only
      have hall := runRequest_along law hcalls r request (started, core)
      generalize runRequest calls r request (started, core) = result at hall ⊢
      obtain ⟨outcome, later⟩ := result
      cases outcome with
      | ok done => exact hall.append law.trans (ih later)
      | error failure =>
        rw [List.append_nil]
        exact hall

theorem flush_along {world : World σ} (h : world.1.running = false) :
    Along P world.2
      (drainMoments calls inside r world.1.limit.most.toNat (world.1.begin, world.2))
      ((TaskQueue.flush (runRequest calls r) world).2.2.struck
        (TaskQueue.flush (runRequest calls r) world).1) := by
  rw [TaskQueue.flush]
  rw [if_neg (by rw [h]; exact Bool.false_ne_true)]
  have hall := drain_along law hcalls r world.1.limit.most.toNat (world.1.begin, world.2)
  generalize TaskQueue.drain (runRequest calls r) world.1.limit.most.toNat (world.1.begin, world.2) =
    result at hall ⊢
  obtain ⟨outcome, q, core⟩ := result
  exact hall

theorem dispatchWith_along (request : Request) (world : World σ) :
    Along P world.2 (dispatchMoments calls inside r request world)
      (dispatchWith calls r request world).2.2 := by
  rw [dispatchMoments, dispatchWith]
  cases world.2.fatal with
  | some cause => exact law.refl _
  | none =>
    dsimp only
    cases hrunning : (world.1.enqueue request).running with
    | true => exact law.refl _
    | false =>
      have hqueued : ((world.1.enqueue request, world.2) : World σ).1.running = false := hrunning
      have hall := flush_along law hcalls r hqueued
      simp only [Bool.false_eq_true, ↓reduceIte]
      generalize TaskQueue.flush (runRequest calls r) (world.1.enqueue request, world.2) = result
        at hall ⊢
      obtain ⟨outcome, q, core⟩ := result
      cases outcome with
      | ok result => exact hall.after law.trans (law.alike _ _ ⟨rfl, rfl, rfl, rfl⟩)
      | error failure =>
        have hquiet : core.Alike { core with pending := [] } := ⟨rfl, rfl, rfl, rfl⟩
        have hstruck := law.alike _ _ (hquiet.struck (.error failure : Except Failure Unit))
        exact (hall.after law.trans hstruck).after law.trans (law.escalate failure _ _)

end World

end Lifting

namespace World

theorem calls_keep {P : Core σ → Core σ → Prop} (law : Core.Law P) (r : Renderer σ) (depth : Nat) :
    (calls r depth).Keep P (moments r depth) := by
  -- The law covers one call if it covers the calls inside it, so the induction is on the depth of nesting.
  induction depth with
  | zero => exact ⟨fun _ world => law.refl world.2, fun _ world => law.refl world.2⟩
  | succ depth ih => exact ⟨executeWith_along law ih r, dispatchWith_along law ih r⟩

def after (r : Renderer σ) (depth : Nat) (world : World σ) : Call → World σ
  | .execute name => ((calls r depth).execute name world).2
  | .dispatch request => ((calls r depth).dispatch request world).2
  | _ => world

theorem call_eq_after (r : Renderer σ) (world : World σ) (call : Call) :
    (world.call r call).2 = world.after r nestingLimit call := by
  cases call <;> rfl

def momentsOf (r : Renderer σ) (depth : Nat) (world : World σ) : Call → List (Core σ)
  | .execute name => (moments r depth).execute name world
  | .dispatch request => (moments r depth).dispatch request world
  | _ => []

def run (r : Renderer σ) (depth : Nat) : World σ → List Call → World σ
  | world, [] => world
  | world, call :: rest => run r depth (world.after r depth call) rest

/-- Cores in the order in which they occur: those that the renderer meets during each call, and the
one that the call leaves behind. -/
def history (r : Renderer σ) (depth : Nat) : World σ → List Call → List (Core σ)
  | _, [] => []
  | world, call :: rest =>
    momentsOf r depth world call ++
      (world.after r depth call).2 :: history r depth (world.after r depth call) rest

section Runs

variable {P : Core σ → Core σ → Prop} (law : Core.Law P) (r : Renderer σ) (depth : Nat)

include law

theorem after_along (world : World σ) (call : Call) :
    Along P world.2 (momentsOf r depth world call) (world.after r depth call).2 := by
  have hkeep := calls_keep law r depth
  cases call with
  | execute name => exact hkeep.execute name world
  | dispatch request => exact hkeep.dispatch request world
  | value name | state | tree | fatal | memory => exact law.refl world.2

theorem run_along (world : World σ) (cs : List Call) :
    Along P world.2 (history r depth world cs) (run r depth world cs).2 := by
  induction cs generalizing world with
  | nil => exact law.refl world.2
  | cons call rest ih =>
    exact (after_along law r depth world call).append law.trans ⟨law.refl _, ih _⟩

theorem run_of_law (world : World σ) (cs : List Call) : P world.2 (run r depth world cs).2 := by
  have hpair := (run_along law r depth world cs).pairwise law.trans
  exact (List.pairwise_cons.1 hpair).1 _ (by simp)

end Runs

end World

end ReactiveView
