import ReactiveView.Proofs.Metering
import ReactiveView.Session.Core

namespace ReactiveView

theorem error_of_map {ε α β : Type} {f : α → β} {x : Except ε α} {e : ε}
    (h : x.map f = .error e) : x = .error e := by
  cases x with
  | ok a => cases h
  | error other =>
    cases h
    rfl

/-- Slot of a view: the declaration of a node, and the node that stands there before a pass, if any. -/
structure Slot where
  declared : ArenaNode
  before : Option Node

namespace Slot

/-- Node that a pass puts into a slot. A new one shows each of its facets; one that stands there changes
in those that occur among some reads and have a new value. -/
def fill (s : State) (reads : List Read) : Slot → Except Failure Node
  | ⟨n, none⟩ => (n.resolveAll s n.facets).2.map (Node.shell n).writeAll
  | ⟨n, some node⟩ =>
    (n.resolveAll s (Index.facetsAmong reads n)).2.map fun values =>
      node.writeAll (View.changes node values)

def purpose (slot : Slot) : String :=
  if slot.before.isNone then "view materialization" else "view update"

def size (slot : Slot) : Int := slot.before.elim 0 Node.size

def sizeOfAll (slots : List Slot) : Int := (slots.map size).sum

@[simp] theorem sizeOfAll_nil : sizeOfAll [] = 0 := rfl

@[simp] theorem sizeOfAll_cons (slot : Slot) (slots : List Slot) :
    sizeOfAll (slot :: slots) = slot.size + sizeOfAll slots := rfl

theorem size_nonneg (slot : Slot) : 0 ≤ slot.size := by
  obtain ⟨n, before⟩ := slot
  cases before with
  | none => exact Int.le_refl 0
  | some node => exact node.size_nonneg

theorem sizeOfAll_nonneg (slots : List Slot) : 0 ≤ sizeOfAll slots := by
  induction slots with
  | nil => exact Int.le_refl 0
  | cons slot rest ih => exact Int.add_nonneg slot.size_nonneg ih

theorem sizeOfAll_append (slots others : List Slot) :
    sizeOfAll (slots ++ others) = sizeOfAll slots + sizeOfAll others := by
  induction slots with
  | nil => exact (Int.zero_add _).symm
  | cons slot rest ih => rw [List.cons_append, sizeOfAll_cons, ih, sizeOfAll_cons, Int.add_assoc]

/-- Bytes in use after one node after the other is charged and what stood in its slot is released; they
never fall below zero. -/
def recharge (used : Int) : List Slot → List Node → Int
  | slot :: slots, node :: nodes => recharge (max 0 (used + node.size - slot.size)) slots nodes
  | _, _ => used

def vacant (ns : List ArenaNode) : List Slot := ns.map fun n => ⟨n, none⟩

def taken (ns : List ArenaNode) (nodes : List Node) : List Slot :=
  List.zipWith (fun n node => ⟨n, some node⟩) ns nodes

theorem sizeOfAll_vacant (ns : List ArenaNode) : sizeOfAll (vacant ns) = 0 := by
  induction ns with
  | nil => rfl
  | cons n rest ih =>
    rw [vacant, List.map_cons, sizeOfAll_cons, ← vacant, ih]
    rfl

theorem sizeOfAll_taken_le (ns : List ArenaNode) (nodes : List Node) :
    sizeOfAll (taken ns nodes) ≤ Node.sizeOfAll nodes := by
  induction ns generalizing nodes with
  | nil => exact Node.sizeOfAll_nonneg nodes
  | cons n rest ih =>
    cases nodes with
    | nil => exact Int.le_refl 0
    | cons node others => exact Int.add_le_add_left (ih others) node.size

end Slot

theorem ArenaNode.code_of_resolve {n : ArenaNode} {s : State} {facet : Facet}
    (hf : facet ∈ n.facets) {cause : SandboxError}
    (h : (n.resolve s facet).2 = .error (.sandbox cause)) : cause.code = .memoryExceeded := by
  have hblame := node_resolve_blame s hf
  rw [resolve] at h
  cases hr : n.node.resolve s facet with
  | ok value =>
    rw [hr] at h
    cases h
  | error fault =>
    rw [hr] at h
    cases fault with
    | evaluation other => cases h
    | sandbox other =>
      cases h
      cases hblame _ hr with
      | values hv => exact hv
    | missingArgument b => cases h
    | notWhole x => cases h

theorem Slot.error_of_fill {slot : Slot} (hslot : slot.declared.Supplied) {s : State}
    {reads : List Read} {failure : Failure} (h : slot.fill s reads = .error failure) :
    ∃ cause, failure = .sandbox cause ∧ cause.code = .memoryExceeded := by
  have hfacets : ∃ facets ⊆ slot.declared.facets,
      (slot.declared.resolveAll s facets).2 = .error failure := by
    obtain ⟨n, before⟩ := slot
    cases before with
    | none => exact ⟨n.facets, List.Subset.refl _, error_of_map h⟩
    | some node => exact ⟨_, (ArenaNode.facetsAmong_sublist reads n).subset, error_of_map h⟩
  obtain ⟨facets, hsub, hfacets⟩ := hfacets
  obtain ⟨facet, hmem, hf⟩ := ArenaNode.error_of_resolveAll hfacets
  obtain ⟨cause, rfl⟩ := ArenaNode.error_of_resolve hslot (hsub hmem) hf
  exact ⟨cause, rfl, ArenaNode.code_of_resolve (hsub hmem) hf⟩

namespace View

/-- A slot is filled: its node is charged and what stood there is released. -/
structure Fills (m : Meter) (slot : Slot) (node : Node) (next : Meter) : Prop where
  grows : m.Grows next slot.size (node.size - slot.size)
  usage : 0 ≤ m.usage → next.usage = max 0 (m.usage + node.size - slot.size)

namespace Fills

variable {m next : Meter} {n : ArenaNode} {node before : Node} {what : String}

theorem built (h : m.allocate node.size what = .ok next) : Fills m ⟨n, none⟩ node next where
  grows := by
    rw [Slot.size, Option.elim_none, Int.sub_zero]
    exact .charge node.size_nonneg h
  usage hm := by
    obtain ⟨-, rfl⟩ := Meter.allocate_ok h
    have hnode := node.size_nonneg
    rw [Slot.size, Option.elim_none, Int.sub_zero, max_eq_right (Int.add_nonneg hm hnode)]

theorem kept (m : Meter) (n : ArenaNode) (node : Node) : Fills m ⟨n, some node⟩ node m where
  grows := by
    rw [Slot.size, Option.elim_some, Int.sub_self]
    exact (Meter.Grows.refl m).mono node.size_nonneg
  usage hm := by
    rw [Slot.size, Option.elim_some, Int.add_sub_cancel, max_eq_right hm]

theorem swapped (h : m.allocate node.size what = .ok next) :
    Fills m ⟨n, some before⟩ node (next.release before.size) where
  grows := .swap node.size_nonneg before.size_nonneg h
  usage hm := by
    obtain ⟨-, rfl⟩ := Meter.allocate_ok h
    rw [Slot.size, Option.elim_some, Meter.release]
    dsimp only
    split <;> omega

end Fills

/-- What a pass that fails has done: the slots in front of one slot are filled and charged, and there a
facet has no value or the charge for the node is refused. -/
structure Halts (s : State) (reads : List Read) (m : Meter) (failure : Failure)
    (filled : List Slot) (nodes : List Node) (slot : Slot) (later : Meter) : Prop where
  made : List.Forall₂ (fun slot node => slot.fill s reads = .ok node) filled nodes
  stop : slot.fill s reads = .error failure ∨ ∃ node cause, slot.fill s reads = .ok node ∧
    later.allocate node.size slot.purpose = .error cause ∧ failure = .sandbox cause
  grows : m.Grows later (Slot.sizeOfAll filled) (Node.sizeOfAll nodes - Slot.sizeOfAll filled)
  usage : 0 ≤ m.usage → later.usage = Slot.recharge m.usage filled nodes

def HaltsIn (s : State) (reads : List Read) (m : Meter) (failure : Failure) (slots : List Slot)
    (account : Account) : Prop :=
  ∃ filled nodes slot rest later, slots = filled ++ slot :: rest ∧ account = some later ∧
    Halts s reads m failure filled nodes slot later

section Passes

variable {s : State} {reads : List Read} {m : Meter} {failure : Failure} {slot : Slot}
  {slots : List Slot}

theorem HaltsIn.unresolved (h : slot.fill s reads = .error failure) :
    HaltsIn s reads m failure (slot :: slots) (some m) :=
  ⟨[], [], slot, slots, m, rfl, rfl, .nil, Or.inl h, .refl m, fun _ => rfl⟩

theorem HaltsIn.refused {node : Node} {cause : SandboxError} (h : slot.fill s reads = .ok node)
    (ha : m.allocate node.size slot.purpose = .error cause) :
    HaltsIn s reads m (.sandbox cause) (slot :: slots) (some m) :=
  ⟨[], [], slot, slots, m, rfl, rfl, .nil, Or.inr ⟨node, cause, h, ha, rfl⟩, .refl m, fun _ => rfl⟩

theorem HaltsIn.cons {node : Node} {next : Meter} {account : Account}
    (h : slot.fill s reads = .ok node) (hfills : Fills m slot node next)
    (hrest : HaltsIn s reads next failure slots account) :
    HaltsIn s reads m failure (slot :: slots) account := by
  obtain ⟨filled, nodes, last, rest, later, rfl, rfl, hmade, hstop, hgrows, husage⟩ := hrest
  have hslot := slot.size_nonneg
  have hfilled := Slot.sizeOfAll_nonneg filled
  have hnode := node.size_nonneg
  refine ⟨slot :: filled, node :: nodes, last, rest, later, rfl, rfl, .cons h hmade, hstop, ?_,
    fun hm => ?_⟩
  · rw [Slot.sizeOfAll_cons, Node.sizeOfAll_cons]
    exact hfills.grows.trans hgrows (by omega) (by omega) (by omega)
  · have hnext := hfills.usage hm
    rw [husage (hnext ▸ le_max_left _ _), hnext, Slot.recharge]

theorem haltsIn_buildNodes (reads : List Read) {ns : List ArenaNode}
    (h : (buildNodes s ns (some m)).outcome = .error failure) :
    HaltsIn s reads m failure (Slot.vacant ns) (buildNodes s ns (some m)).account := by
  induction ns generalizing m with
  | nil => cases h
  | cons n rest ih =>
    rw [buildNodes] at h ⊢
    rw [Slot.vacant, List.map_cons, ← Slot.vacant]
    split at h
    · rename_i visits other hv
      cases h
      exact .unresolved (by rw [Slot.fill, hv]; rfl)
    · rename_i visits values hv
      have hfill : Slot.fill s reads ⟨n, none⟩ = .ok ((Node.shell n).writeAll values) := by
        rw [Slot.fill, hv]
        rfl
      dsimp only at h ⊢
      split at h
      · rename_i cause ha
        cases h
        exact .refused hfill (Account.allocate_error ha)
      · rename_i next ha
        obtain ⟨charged, hc, rfl⟩ := Account.allocate_ok ha
        exact .cons hfill (.built hc) (ih (error_extend h))

theorem haltsIn_updateNodes {ns : List ArenaNode} {nodes : List Node}
    (h : (updateNodes s (Index.facetsAmong reads) ns nodes (some m)).outcome = .error failure) :
    HaltsIn s reads m failure (Slot.taken ns nodes)
      (updateNodes s (Index.facetsAmong reads) ns nodes (some m)).account := by
  induction ns generalizing nodes m with
  | nil =>
    simp only [updateNodes] at h
    cases h
  | cons n rest ih =>
    cases nodes with
    | nil =>
      simp only [updateNodes] at h
      cases h
    | cons before others =>
      rw [updateNodes] at h ⊢
      rw [Slot.taken, List.zipWith_cons_cons, ← Slot.taken]
      split at h
      · rename_i visits other hv
        cases h
        exact .unresolved (by rw [Slot.fill, hv]; rfl)
      · rename_i visits values hv
        have hfill : Slot.fill s reads ⟨n, some before⟩ =
            .ok (before.writeAll (changes before values)) := by
          rw [Slot.fill, hv]
          rfl
        dsimp only at h ⊢
        -- The pass halts here because a facet has no value, or because the charge is refused.
        split at h
        · rename_i hempty
          rw [if_pos hempty]
          rw [List.isEmpty_iff.1 hempty] at hfill
          exact .cons hfill (.kept m n before) (ih (error_extend h))
        · rename_i hchanged
          rw [if_neg hchanged]
          split at h
          · rename_i cause ha
            cases h
            exact .refused hfill (Account.allocate_error ha)
          · rename_i charged ha
            obtain ⟨next, hc, rfl⟩ := Account.allocate_ok ha
            exact .cons hfill (.swapped hc) (ih (error_extend h))

end Passes

end View

namespace View.Halts

variable {s : State} {reads : List Read} {m later : Meter} {failure : Failure}
  {filled : List Slot} {nodes : List Node} {slot : Slot}

theorem code (h : Halts s reads m failure filled nodes slot later)
    (hslot : slot.declared.Supplied) :
    ∃ cause, failure = .sandbox cause ∧ cause.code = .memoryExceeded := by
  rcases h.stop with hfill | ⟨node, cause, -, ha, rfl⟩
  · exact Slot.error_of_fill hslot hfill
  · obtain ⟨-, rfl⟩ := Meter.allocate_error ha
    exact ⟨_, rfl, rfl⟩

theorem nodes_eq_nil_iff (h : Halts s reads m failure filled nodes slot later) :
    nodes = [] ↔ filled = [] := by
  rw [← List.length_eq_zero_iff, ← h.made.length_eq, List.length_eq_zero_iff]

end View.Halts

def Application.slots (app : Application) : Option Tree → List Slot
  | none => Slot.vacant app.nodes
  | some tree => Slot.taken app.nodes tree.nodes

namespace Application

variable {app : Application} {previous : Option Tree}

theorem sizeOfAll_slots_le (app : Application) (previous : Option Tree) :
    Slot.sizeOfAll (app.slots previous) ≤ previous.elim 0 Tree.size := by
  cases previous with
  | none => exact Int.le_of_eq (Slot.sizeOfAll_vacant app.nodes)
  | some tree => exact Slot.sizeOfAll_taken_le app.nodes tree.nodes

theorem declared_mem_of_mem_slots {slot : Slot} (h : slot ∈ app.slots previous) :
    slot.declared ∈ app.nodes := by
  cases previous with
  | none =>
    obtain ⟨n, hn, rfl⟩ := List.mem_map.1 h
    exact hn
  | some tree =>
    obtain ⟨i, hi, rfl⟩ := List.mem_iff_getElem.1 h
    simp only [slots, Slot.taken, List.getElem_zipWith]
    exact List.getElem_mem _

end Application

theorem View.haltsIn_reconcile {app : Application} {s : State} {previous : Option Tree}
    {dirty : List String} {m : Meter} {failure : Failure}
    (h : (reconcile app s previous dirty (some m)).outcome = .error failure) :
    HaltsIn s (app.index.readsOf dirty) m failure (app.slots previous)
      (reconcile app s previous dirty (some m)).account := by
  cases previous with
  | none => exact haltsIn_buildNodes _ (error_of_map h)
  | some tree => exact haltsIn_updateNodes (error_of_map h)

/-- A pass over the view of a loaded document that fails does so for want of memory. It has filled the slots
in front of some slot, where a facet has no value or a charge is refused, and what it charged is not given
back: if the view before the pass is in use, the bytes in use grow by what the new nodes take more than
those before them. A build, which is a pass without a view before it, thus leaves the bytes in use as they
were only if it fails at its first node. A running application keeps the view that it had. -/
theorem Program.residue_of_failed_pass {p : Program} {app : Application} (hload : p.load = .ok app)
    {s : State} {previous : Option Tree} {dirty : List String} {m : Meter} {failure : Failure}
    (h : (View.reconcile app s previous dirty (some m)).outcome = .error failure) :
    (∃ cause, failure = .sandbox cause ∧ cause.code = .memoryExceeded) ∧
    ∃ filled nodes slot rest later, app.slots previous = filled ++ slot :: rest ∧
      (View.reconcile app s previous dirty (some m)).account = some later ∧
      View.Halts s (app.index.readsOf dirty) m failure filled nodes slot later ∧
      (0 ≤ m.usage → later.usage = Slot.recharge m.usage filled nodes) ∧
      (previous.elim 0 Tree.size ≤ m.usage →
        later.usage = m.usage + (Node.sizeOfAll nodes - Slot.sizeOfAll filled) ∧
        (previous = none → (later.usage = m.usage ↔ filled = []))) ∧
      ∀ (σ : Type) (calls : Calls σ) (r : Renderer σ) (q : TaskQueue Request) (core : Core σ),
        core.app = app → core.store.state = s → core.store.account = some m →
          previous = some core.tree →
            let after := World.refresh calls r dirty (q, core)
            after.1 = .error failure ∧ after.2.2.tree = core.tree ∧
              after.2.2.store.account = some later := by
  obtain ⟨filled, nodes, slot, rest, later, hslots, haccount, hhalts⟩ := View.haltsIn_reconcile h
  have hfilled := app.sizeOfAll_slots_le previous
  rw [hslots, Slot.sizeOfAll_append] at hfilled
  have hrest := Slot.sizeOfAll_nonneg (slot :: rest)
  refine ⟨?cause, filled, nodes, slot, rest, later, hslots, haccount, hhalts, hhalts.usage,
    fun hheld => ?usage, ?running⟩
  case cause =>
    have hmem : slot ∈ app.slots previous := hslots ▸ List.mem_append_right _ List.mem_cons_self
    exact hhalts.code ((sound_of_load hload).supplied _ (Application.declared_mem_of_mem_slots hmem))
  case usage =>
    have husage := hhalts.grows.usage (by omega)
    refine ⟨husage, ?_⟩
    rintro rfl
    have hnonneg := Slot.sizeOfAll_nonneg filled
    rw [Option.elim_none] at hfilled
    rw [husage, ← hhalts.nodes_eq_nil_iff, ← Node.sizeOfAll_eq_zero_iff]
    omega
  case running =>
    rintro σ calls r q core rfl rfl hm rfl
    rw [World.refresh, hm]
    dsimp only
    rw [h]
    exact ⟨rfl, rfl, haccount⟩

def echo : Program where
  app := "Echo"
  version := .ofInt 1
  state := [("note", .str "")]
  view := some ⟨"column", .ofList [],
    [⟨"text", .ofList [], [], some [.var "note"]⟩, ⟨"text", .ofList [], [], some [.var "note"]⟩],
    none⟩
  actions := []

theorem echo_loads : echo.load = .ok echo.application :=
  Program.load_eq_ok_iff.2 ⟨by decide +kernel, rfl⟩

/-- With room for two nodes, the build of the three stops at the last one, and the two stay charged. -/
theorem echo_built_in_part :
    let pass := View.reconcile echo.application echo.application.initialState none []
      (some { limit := .ofInt 250 })
    ∃ failure filled nodes slot rest later, pass.outcome = .error failure ∧
      echo.application.slots none = filled ++ slot :: rest ∧ filled ≠ [] ∧
      pass.account = some later ∧ later.usage = 224 ∧
      Node.sizeOfAll nodes - Slot.sizeOfAll filled = 224 := by
  intro pass
  have hfails : pass.outcome.toOption.isNone = true := by decide +kernel
  have husage : pass.account.map Meter.usage = some 224 := by decide +kernel
  cases houtcome : pass.outcome with
  | ok shown =>
    rw [houtcome] at hfails
    cases hfails
  | error failure =>
    obtain ⟨-, filled, nodes, slot, rest, later, hslots, haccount, -, -, hlater, -⟩ :=
      Program.residue_of_failed_pass echo_loads houtcome
    obtain ⟨hgrown, hkept⟩ := hlater (Int.le_refl 0)
    rw [haccount, Option.map_some, Option.some.injEq] at husage
    rw [husage] at hgrown hkept
    refine ⟨failure, filled, nodes, slot, rest, later, rfl, hslots, fun hnil => ?_, haccount,
      husage, ?_⟩
    · exact absurd ((hkept rfl).2 hnil) (by decide)
    · rw [hgrown, Int.zero_add]

/-- A note is typed for which there is room in one place but not in both. The update fails, and what the
first place has grown by stays charged although the view before stays. -/
theorem echo_residue :
    let typed := echo.application.initialState.put "note" (.str "abcdefghij")
    let room : Limit := .ofInt 470
    let start := View.materialize echo.application echo.application.initialState
      (some { limit := room })
    echo.load = .ok echo.application ∧ start.account = some ⟨room, 336, 336⟩ ∧
      ∃ built failure, start.outcome = .ok built ∧ built.tree.size = 336 ∧
        let pass := View.reconcile echo.application typed (some built.tree) ["note"] start.account
        pass.outcome = .error failure ∧ pass.account = some ⟨room, 356, 468⟩ := by
  intro typed room start
  obtain ⟨built, hbuilt, hchecks⟩ := exists_ok_of_any start.outcome
    (fun built =>
      let pass := View.reconcile echo.application typed (some built.tree) ["note"] start.account
      built.tree.size = 336 ∧ pass.outcome.toOption.isNone ∧
        pass.account = some ⟨room, 356, 468⟩)
    (by decide +kernel)
  obtain ⟨hsize, hfails, haccount⟩ := of_decide_eq_true hchecks
  refine ⟨echo_loads, by decide +kernel, built, ?_⟩
  cases houtcome : (View.reconcile echo.application typed (some built.tree) ["note"]
      start.account).outcome with
  | ok shown =>
    rw [houtcome] at hfails
    cases hfails
  | error failure => exact ⟨failure, hbuilt, hsize, houtcome, haccount⟩

end ReactiveView
