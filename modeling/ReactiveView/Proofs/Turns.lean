import ReactiveView.Proofs.Delivery

namespace ReactiveView

variable {σ : Type}

/-- An action is executed or an event of the queue is handled, with the world as it is then. -/
inductive Turn (σ : Type) where
  | action (name : String) (before : World σ)
  | event (request : Request) (before : World σ)

namespace Turn

def before : Turn σ → World σ
  | .action _ before => before
  | .event _ before => before

def result : Turn σ → Except Failure (List String × Rendering) × Core σ
  | .action name before => before.2.revise fun store => store.execute before.2.app.actions name
  | .event request before =>
    match World.responseTo before.2 request with
    | .error _ => (.ok ([], ⟨before.2.tree, []⟩), before.2)
    | .ok change => before.2.revise change

def after (t : Turn σ) : Core σ := t.result.2

theorem result_cases (t : Turn σ) :
    (∃ change, t.before.2.app.Offers change ∧ t.result = t.before.2.revise change) ∨
      ∃ revised, t.result = (.ok revised, t.before.2) := by
  cases t with
  | action name before => exact Or.inl ⟨_, .execute name, rfl⟩
  | event request before =>
    cases hr : World.responseTo before.2 request with
    | error reason => exact Or.inr ⟨_, by rw [result, hr]; rfl⟩
    | ok change => exact Or.inl ⟨change, World.offers_of_responseTo hr, by rw [result, hr]; rfl⟩

end Turn

structure Turns (σ : Type) where
  execute : String → World σ → List (Turn σ)
  dispatch : Request → World σ → List (Turn σ)

def Reaction.turns (calls : Calls σ) (inside : Turns σ) : Reaction σ → World σ → List (Turn σ)
  | .done, _ => []
  | .fail _, _ => []
  | .update change next, (q, core) =>
    turns calls inside next (q, { core with sink := change core.sink })
  | .consult next, (q, core) => turns calls inside (next core.sink) (q, core)
  | .look next, (q, core) => turns calls inside (next core.glimpse) (q, core)
  | .weigh next, (q, core) => turns calls inside (next core.meter) (q, core)
  | .execute name next, world =>
    let (answer, later) := calls.execute name world
    inside.execute name world ++ turns calls inside (next answer) later
  | .dispatch request next, world =>
    let (answer, later) := calls.dispatch request world
    inside.dispatch request world ++ turns calls inside (next answer) later

namespace World

def presentTurns (calls : Calls σ) (inside : Turns σ) (r : Renderer σ) (q : TaskQueue Request) :
    Except Failure (List String × Rendering) × Core σ → List (Turn σ)
  | (.error _, _) => []
  | (.ok (dirty, rendering), core) =>
    if rendering.patches.isEmpty then []
    else
      (r.apply rendering.patches rendering.tree).turns calls inside
        (q, core.write [updatedLine dirty rendering.patches])

def takeTurn (calls : Calls σ) (inside : Turns σ) (r : Renderer σ) (t : Turn σ) : List (Turn σ) :=
  t :: presentTurns calls inside r t.before.1 t.result

def executeTurns (calls : Calls σ) (inside : Turns σ) (r : Renderer σ) (name : String)
    (world : World σ) : List (Turn σ) :=
  match world.2.fatal with
  | some _ => []
  | none => takeTurn calls inside r (.action name world)

def drainTurns (calls : Calls σ) (inside : Turns σ) (r : Renderer σ) : Nat → World σ → List (Turn σ)
  | 0, _ => []
  | budget + 1, (q, core) =>
    match q.next? with
    | none => []
    | some (request, started) =>
      takeTurn calls inside r (.event request (started, core)) ++
        match runRequest calls r request (started, core) with
        | (.error _, _) => []
        | (.ok (), later) => drainTurns calls inside r budget later

def dispatchTurns (calls : Calls σ) (inside : Turns σ) (r : Renderer σ) (request : Request)
    (world : World σ) : List (Turn σ) :=
  match world.2.fatal with
  | some _ => []
  | none =>
    let q := world.1.enqueue request
    if q.running then [] else drainTurns calls inside r q.limit.most.toNat (q.begin, world.2)

def turns (r : Renderer σ) : Nat → Turns σ
  | 0 => ⟨fun _ _ => [], fun _ _ => []⟩
  | depth + 1 =>
    ⟨executeTurns (calls r depth) (turns r depth) r, dispatchTurns (calls r depth) (turns r depth) r⟩

def turnsOf (r : Renderer σ) (depth : Nat) (world : World σ) : Call → List (Turn σ)
  | .execute name => (turns r depth).execute name world
  | .dispatch request => (turns r depth).dispatch request world
  | _ => []

def runTurns (r : Renderer σ) (depth : Nat) : World σ → List Call → List (Turn σ)
  | _, [] => []
  | world, call :: rest => turnsOf r depth world call ++ runTurns r depth (world.after r depth call) rest

/-- A world coincides with a later one that has the same state and the same view of the same application,
and the same limit for its flushes. -/
structure Coincides (world later : World σ) : Prop where
  app : later.2.app = world.2.app
  store : later.2.store = world.2.store
  tree : later.2.tree = world.2.tree
  limit : later.1.limit = world.1.limit

namespace Coincides

theorem refl (world : World σ) : Coincides world world := ⟨rfl, rfl, rfl, rfl⟩

theorem trans {a b c : World σ} (h : Coincides a b) (h' : Coincides b c) : Coincides a c :=
  ⟨h'.app.trans h.app, h'.store.trans h.store, h'.tree.trans h.tree, h'.limit.trans h.limit⟩

end Coincides

theorem coincides_escalate (failure : Failure) (dropped : Nat) (core : Core σ)
    {q left : TaskQueue Request} (hlimit : left.limit = q.limit) :
    Coincides (q, core) (left, escalate failure dropped core) := by
  have halike := @Core.alike_escalate σ Unit failure dropped core
  exact ⟨halike.app.trans (Core.struck_app _ _), halike.store.trans (Core.struck_store _ _),
    halike.tree.trans (Core.struck_tree _ _), hlimit⟩

theorem coincides_abandon (failure : Failure) (world : World σ) :
    world.Coincides (abandon failure world) := by
  obtain ⟨q, core⟩ := world
  cases failure with
  | sandbox cause => exact coincides_escalate _ _ core rfl
  | load cause | evaluation cause | action cause | defect cause => exact coincides_escalate _ 0 core rfl

theorem coincides_conclude (result : Except Failure Unit × World σ) :
    Coincides result.2 (conclude result).2 := by
  obtain ⟨outcome, q, core⟩ := result
  cases outcome with
  | ok done => exact ⟨rfl, rfl, rfl, TaskQueue.limit_finish q⟩
  | error failure =>
    have hquiet : Coincides (q, core) (q, { core with pending := [] }) := ⟨rfl, rfl, rfl, rfl⟩
    exact hquiet.trans (coincides_escalate failure _ _ (TaskQueue.limit_finish q))

end World

namespace Turn

def Lead : World σ → List (Turn σ) → World σ → Prop
  | world, [], later => world.Coincides later
  | world, t :: rest, later => world.Coincides t.before ∧ Lead (t.before.1, t.after) rest later

namespace Lead

variable {a b c : World σ} {ts rest : List (Turn σ)}

theorem refl (world : World σ) : Lead world [] world := World.Coincides.refl world

theorem before (hab : a.Coincides b) (h : Lead b ts c) : Lead a ts c := by
  cases ts with
  | nil => exact hab.trans h
  | cons t rest => exact ⟨hab.trans h.1, h.2⟩

theorem append (h : Lead a ts b) (h' : Lead b rest c) : Lead a (ts ++ rest) c := by
  induction ts generalizing a with
  | nil => exact before h h'
  | cons t ts ih => exact ⟨h.1, ih h.2⟩

theorem after (h : Lead a ts b) (hbc : b.Coincides c) : Lead a ts c := by
  have hlast : Lead b [] c := hbc
  have hall := h.append hlast
  rwa [List.append_nil] at hall

theorem limit_eq (h : Lead a ts b) : b.1.limit = a.1.limit := by
  induction ts generalizing a with
  | nil => exact World.Coincides.limit h
  | cons t rest ih => exact (ih h.2).trans h.1.limit

end Lead

end Turn

structure Calls.Lead (calls : Calls σ) (inside : Turns σ) : Prop where
  execute : ∀ name world, Turn.Lead world (inside.execute name world) (calls.execute name world).2
  dispatch : ∀ request world,
    Turn.Lead world (inside.dispatch request world) (calls.dispatch request world).2

namespace World

section Dispatches

variable {calls : Calls σ} {inside : Turns σ} {r : Renderer σ} {request : Request} {world : World σ}

theorem dispatchTurns_of_running (hlive : world.2.fatal = none) (hrunning : world.1.running = true) :
    dispatchTurns calls inside r request world = [] := by
  have hqueued : (world.1.enqueue request).running = true := hrunning
  rw [dispatchTurns, hlive]
  dsimp only
  rw [if_pos hqueued]

theorem dispatchTurns_of_idle (hlive : world.2.fatal = none) (hidle : world.1.running = false) :
    dispatchTurns calls inside r request world =
      drainTurns calls inside r (world.1.enqueue request).limit.most.toNat
        ((world.1.enqueue request).begin, world.2) := by
  have hqueued : ¬(world.1.enqueue request).running = true := by simp [TaskQueue.enqueue, hidle]
  rw [dispatchTurns, hlive]
  dsimp only
  rw [if_neg hqueued]

theorem drainTurns_of_empty (hempty : world.1.waiting = []) (budget : Nat) :
    drainTurns calls inside r budget world = [] := by
  cases budget with
  | zero => rfl
  | succ budget =>
    rw [drainTurns]
    split
    · rfl
    · rename_i hnext
      rw [(TaskQueue.next?_eq_some hnext).1] at hempty
      cases hempty

end Dispatches

end World

section Lifting

variable {calls : Calls σ} {inside : Turns σ} (hcalls : calls.Lead inside)

include hcalls

theorem Reaction.lead (reaction : Reaction σ) (world : World σ) :
    Turn.Lead world (reaction.turns calls inside world) (reaction.run calls world).2 := by
  induction reaction generalizing world with
  | done | fail failure => exact .refl _
  | update change next ih =>
    have hsink : world.Coincides (world.1, { world.2 with sink := change world.2.sink }) :=
      ⟨rfl, rfl, rfl, rfl⟩
    exact (ih (world.1, _)).before hsink
  | consult next ih | look next ih | weigh next ih => exact ih _ world
  | execute name next ih => exact (hcalls.execute name world).append (ih _ _)
  | dispatch request next ih => exact (hcalls.dispatch request world).append (ih _ _)

namespace World

variable (r : Renderer σ)

theorem takeTurn_lead (t : Turn σ) :
    Turn.Lead t.before (takeTurn calls inside r t) (present calls r t.before.1 t.result).2 := by
  refine ⟨.refl _, ?_⟩
  rw [Turn.after]
  generalize t.result = result
  obtain ⟨outcome, core⟩ := result
  cases outcome with
  | error failure => exact .refl _
  | ok revised =>
    obtain ⟨dirty, rendering⟩ := revised
    rw [presentTurns, present]
    dsimp only
    split
    · exact .refl _
    · have hline : Coincides (t.before.1, core)
          (t.before.1, core.write [updatedLine dirty rendering.patches]) := ⟨rfl, rfl, rfl, rfl⟩
      have hall := (Reaction.lead hcalls (r.apply rendering.patches rendering.tree) _).before hline
      split <;> rename_i hrun <;> rw [hrun] at hall <;> exact hall

theorem executeWith_lead (name : String) (world : World σ) :
    Turn.Lead world (executeTurns calls inside r name world) (executeWith calls r name world).2 := by
  obtain ⟨q, core⟩ := world
  rw [executeTurns, executeWith]
  dsimp only
  cases core.fatal with
  | some cause => exact .refl _
  | none =>
    dsimp only
    have hall := takeTurn_lead hcalls r (.action name (q, core))
    rw [Turn.result, Turn.before, ← perform_eq] at hall
    generalize perform calls r _ (q, core) = result at hall ⊢
    obtain ⟨outcome, later⟩ := result
    cases outcome with
    | ok execution => exact hall
    | error failure => exact hall.after (coincides_abandon failure later)

theorem runRequest_lead (request : Request) (world : World σ) :
    Turn.Lead world (takeTurn calls inside r (.event request world))
      (runRequest calls r request world).2 := by
  have hall := takeTurn_lead hcalls r (.event request world)
  obtain ⟨q, core⟩ := world
  rw [Turn.result, Turn.before] at hall
  dsimp only at hall
  cases hr : responseTo core request with
  | error reason =>
    -- the turn is recorded although nothing changes, and no patches go to the renderer
    rw [hr] at hall
    rw [runRequest_of_ignored hr]
    exact hall.after ⟨rfl, rfl, rfl, rfl⟩
  | ok change =>
    rw [hr] at hall
    dsimp only at hall
    rw [runRequest_of_response hr, perform_eq]
    generalize present calls r q _ = result at hall ⊢
    obtain ⟨outcome, later⟩ := result
    cases outcome with
    | ok execution => exact hall.after ⟨rfl, rfl, rfl, rfl⟩
    | error failure => cases failure <;> exact hall.after ⟨rfl, rfl, rfl, rfl⟩

theorem drain_lead (budget : Nat) (world : World σ) :
    Turn.Lead world (drainTurns calls inside r budget world)
      (TaskQueue.drain (runRequest calls r) budget world).2 := by
  induction budget generalizing world with
  | zero =>
    rw [drainTurns, TaskQueue.drain]
    split <;> exact .refl _
  | succ budget ih =>
    obtain ⟨q, core⟩ := world
    rw [drainTurns, TaskQueue.drain]
    cases hnext : q.next? with
    | none => exact .refl _
    | some next =>
      obtain ⟨request, started⟩ := next
      have hstarted : Coincides (q, core) (started, core) :=
        ⟨rfl, rfl, rfl, (TaskQueue.next?_eq_some hnext).2.2.1⟩
      have hall := (runRequest_lead hcalls r request (started, core)).before hstarted
      dsimp only
      generalize runRequest calls r request (started, core) = result at hall ⊢
      obtain ⟨outcome, later⟩ := result
      cases outcome with
      | ok done => exact hall.append (ih later)
      | error failure =>
        rw [List.append_nil]
        exact hall

theorem dispatchWith_lead (request : Request) (world : World σ) :
    Turn.Lead world (dispatchTurns calls inside r request world)
      (dispatchWith calls r request world).2 := by
  cases hf : world.2.fatal with
  | some cause =>
    rw [dispatchTurns, dispatchWith, hf]
    exact .refl _
  | none =>
    cases hrunning : world.1.running with
    | true =>
      rw [dispatchWith_of_running calls r request hf hrunning, dispatchTurns_of_running hf hrunning]
      exact World.Coincides.mk rfl rfl rfl rfl
    | false =>
      rw [dispatchWith_of_idle calls r request hf hrunning, dispatchTurns_of_idle hf hrunning]
      have hqueued : world.Coincides ((world.1.enqueue request).begin, world.2) :=
        ⟨rfl, rfl, rfl, rfl⟩
      exact ((drain_lead hcalls r _ _).before hqueued).after (coincides_conclude _)

end World

end Lifting

namespace World

theorem calls_lead (r : Renderer σ) (depth : Nat) : (calls r depth).Lead (turns r depth) := by
  induction depth with
  | zero => exact ⟨fun _ _ => .refl _, fun _ _ => .refl _⟩
  | succ depth ih => exact ⟨executeWith_lead ih r, dispatchWith_lead ih r⟩

theorem after_lead (r : Renderer σ) (depth : Nat) (world : World σ) (call : Call) :
    Turn.Lead world (turnsOf r depth world call) (world.after r depth call) := by
  have hcalls := calls_lead r depth
  cases call with
  | execute name => exact hcalls.execute name world
  | dispatch request => exact hcalls.dispatch request world
  | value name | state | tree | fatal | memory => exact .refl _

theorem run_lead (r : Renderer σ) (depth : Nat) (world : World σ) (cs : List Call) :
    Turn.Lead world (runTurns r depth world cs) (run r depth world cs) := by
  induction cs generalizing world with
  | nil => exact .refl _
  | cons call rest ih => exact (after_lead r depth world call).append (ih _)

end World

/-- A reaction makes no calls. It may still look at the application and fail. -/
def Reaction.Passive : Reaction σ → Prop
  | .done | .fail _ => True
  | .update _ next => Passive next
  | .consult next => ∀ sink, Passive (next sink)
  | .look next => ∀ glimpse, Passive (next glimpse)
  | .weigh next => ∀ m, Passive (next m)
  | .execute _ _ | .dispatch _ _ => False

def Renderer.Passive (r : Renderer σ) : Prop := ∀ patches tree, (r.apply patches tree).Passive

section Passive

variable (calls : Calls σ) (inside : Turns σ)

theorem Reaction.run_of_passive {reaction : Reaction σ} (h : reaction.Passive) (world : World σ) :
    reaction.turns calls inside world = [] ∧ (reaction.run calls world).2.1 = world.1 := by
  induction reaction generalizing world with
  | done | fail failure => exact ⟨rfl, rfl⟩
  | update change next ih => exact ih h (world.1, _)
  | consult next ih | look next ih | weigh next ih => exact ih _ (h _) world
  | execute name next ih | dispatch request next ih => exact h.elim

namespace World

variable {r : Renderer σ} (hpassive : r.Passive)

include hpassive

theorem present_of_passive (q : TaskQueue Request)
    (result : Except Failure (List String × Rendering) × Core σ) :
    presentTurns calls inside r q result = [] ∧ (present calls r q result).2.1 = q := by
  obtain ⟨outcome, core⟩ := result
  cases outcome with
  | error failure => exact ⟨rfl, rfl⟩
  | ok revised =>
    obtain ⟨dirty, rendering⟩ := revised
    rw [presentTurns, present]
    dsimp only
    split
    · exact ⟨rfl, rfl⟩
    · obtain ⟨hturns, hqueue⟩ := Reaction.run_of_passive calls inside
        (hpassive rendering.patches rendering.tree) (q, core.write [updatedLine dirty rendering.patches])
      refine ⟨hturns, ?_⟩
      split <;> rename_i hrun <;> rw [hrun] at hqueue <;> exact hqueue

theorem queue_of_passive (request : Request) (world : World σ) :
    (runRequest calls r request world).2.1 = world.1 := by
  obtain ⟨q, core⟩ := world
  cases hr : responseTo core request with
  | error reason => rw [runRequest_of_ignored hr]
  | ok change =>
    have hqueue := (present_of_passive calls (turns r 0) hpassive q (core.revise change)).2
    rw [runRequest_of_response hr, perform_eq]
    generalize present calls r q _ = result at hqueue ⊢
    obtain ⟨outcome, later⟩ := result
    cases outcome with
    | ok execution => exact hqueue
    | error failure => cases failure <;> exact hqueue

end World

end Passive

namespace World

/-- An event that is dispatched while nothing runs and nothing waits takes the first turn. With a passive
renderer it is the only one. -/
theorem turnsOf_dispatch (r : Renderer σ) (depth : Nat) {world : World σ} (request : Request)
    (hlive : world.2.fatal = none) (hidle : world.1.running = false) (hempty : world.1.waiting = [])
    (hlimit : 0 < world.1.limit.most) :
    ∃ q rest, turnsOf r (depth + 1) world (.dispatch request) =
      .event request (q, world.2) :: rest ∧ (r.Passive → rest = []) := by
  have hwaiting : (world.1.enqueue request).begin.waiting = [request] := by
    change (world.1.enqueue request).waiting = _
    rw [TaskQueue.waiting_enqueue, hempty, List.nil_append]
  -- One turn at least may be taken.
  obtain ⟨budget, hbudget⟩ : ∃ budget, (world.1.enqueue request).limit.most.toNat = budget + 1 :=
    Nat.exists_eq_succ_of_ne_zero (by show world.1.limit.most.toNat ≠ 0; omega)
  change ∃ q rest, dispatchTurns (calls r depth) (turns r depth) r request world = _ ∧ _
  rw [dispatchTurns_of_idle hlive hidle, hbudget, drainTurns]
  cases hnext : (world.1.enqueue request).begin.next? with
  | none =>
    rw [TaskQueue.next?_eq_none hnext] at hwaiting
    cases hwaiting
  | some next =>
    obtain ⟨first, started⟩ := next
    obtain ⟨hsplit, -⟩ := TaskQueue.next?_eq_some hnext
    obtain ⟨rfl, hstarted⟩ := List.cons.inj (hwaiting.symm.trans hsplit)
    simp only [takeTurn, List.cons_append]
    refine ⟨started, _, rfl, fun hpassive => ?_⟩
    rw [(present_of_passive _ _ hpassive _ _).1, List.nil_append]
    have hqueue := queue_of_passive (calls r depth) hpassive request (started, world.2)
    generalize runRequest (calls r depth) r request (started, world.2) = result at hqueue ⊢
    obtain ⟨outcome, q, core⟩ := result
    obtain rfl : q = started := hqueue
    cases outcome with
    | error failure => rfl
    | ok done => exact drainTurns_of_empty hstarted.symm budget

end World

end ReactiveView
