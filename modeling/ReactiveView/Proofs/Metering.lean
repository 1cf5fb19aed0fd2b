import Mathlib.Logic.Relation
import ReactiveView.Proofs.Closeness
import ReactiveView.Proofs.Sizes
import ReactiveView.Proofs.Upkeep

namespace ReactiveView

namespace Meter

structure Sound (m : Meter) : Prop where
  nonneg : 0 ≤ m.usage
  limited : m.usage ≤ m.limit.most
  peaked : m.usage ≤ m.peak

/-- One charge that is granted, or one refund. -/
inductive Moves : Meter → Meter → Prop where
  | charge {m later : Meter} {bytes : Int} {what : String} (hb : 0 ≤ bytes)
    (h : m.allocate bytes what = .ok later) : Moves m later
  | refund {m : Meter} {bytes : Int} (hb : 0 ≤ bytes) : Moves m (m.release bytes)

def Follows (m later : Meter) : Prop := Relation.ReflTransGen Moves m later

variable {m later : Meter} {bytes : Int} {what : String}

theorem allocate_ok (h : m.allocate bytes what = .ok later) :
    m.usage + bytes ≤ m.limit.most ∧ later = { m with
      usage := m.usage + bytes
      peak := if m.peak < m.usage + bytes then m.usage + bytes else m.peak } := by
  unfold allocate at h
  dsimp only at h
  split at h
  · cases h
  · rename_i hle
    cases h
    exact ⟨Int.not_lt.1 hle, rfl⟩

theorem allocate_error {cause : SandboxError} (h : m.allocate bytes what = .error cause) :
    m.limit.most < m.usage + bytes ∧
      cause = .memoryExceeded m.limit.number what (.ofInt m.usage) (.ofInt bytes) := by
  unfold allocate at h
  dsimp only at h
  split at h
  · rename_i hlt
    cases h
    exact ⟨hlt, rfl⟩
  · cases h

theorem sound_of_allocate (hn : 0 ≤ m.usage + bytes) (h : m.allocate bytes what = .ok later) :
    later.Sound := by
  obtain ⟨hle, rfl⟩ := allocate_ok h
  refine ⟨hn, hle, ?_⟩
  dsimp only
  split <;> omega

theorem Moves.limit_eq (h : Moves m later) : later.limit = m.limit := by
  cases h with
  | charge hb h =>
    obtain ⟨-, rfl⟩ := allocate_ok h
    rfl
  | refund hb => rfl

theorem Moves.peak_le (h : Moves m later) : m.peak ≤ later.peak := by
  cases h with
  | charge hb h =>
    obtain ⟨-, rfl⟩ := allocate_ok h
    dsimp only
    split <;> omega
  | refund hb => exact Int.le_refl _

theorem Moves.sound (h : Moves m later) (hs : m.Sound) : later.Sound := by
  cases h with
  | charge hb h => exact sound_of_allocate (Int.add_nonneg hs.nonneg hb) h
  | refund hb =>
    obtain ⟨hn, hl, hp⟩ := hs
    constructor <;> unfold release <;> dsimp only <;> split <;> omega

namespace Follows

theorem refl (m : Meter) : m.Follows m := Relation.ReflTransGen.refl

theorem trans {u v w : Meter} (h : u.Follows v) (h' : v.Follows w) : u.Follows w :=
  Relation.ReflTransGen.trans h h'

theorem limit_eq (h : m.Follows later) : later.limit = m.limit := by
  induction h with
  | refl => rfl
  | tail _ hm ih => exact hm.limit_eq.trans ih

theorem peak_le (h : m.Follows later) : m.peak ≤ later.peak := by
  induction h with
  | refl => exact Int.le_refl _
  | tail _ hm ih => exact Int.le_trans ih hm.peak_le

theorem sound (h : m.Follows later) (hs : m.Sound) : later.Sound := by
  induction h with
  | refl => exact hs
  | tail _ hm ih => exact hm.sound ih

end Follows

/-- A meter is reached by single charges and refunds. None of them is cut off if at least `held` bytes
are in use, and then they add up to the growth. -/
structure Grows (m later : Meter) (held growth : Int) : Prop where
  follows : m.Follows later
  usage : held ≤ m.usage → later.usage = m.usage + growth

namespace Grows

variable {held : Int}

theorem refl (m : Meter) : m.Grows m held 0 := ⟨.refl m, fun _ => (Int.add_zero _).symm⟩

theorem trans {u v w : Meter} {f g a b c : Int} (h : u.Grows v f a) (h' : v.Grows w g b)
    (hf : f ≤ held) (hg : g ≤ held + a) (hc : c = a + b) : u.Grows w held c := by
  refine ⟨h.follows.trans h'.follows, fun hh => ?_⟩
  have hv := h.usage (by omega)
  rw [h'.usage (by omega), hv, hc, Int.add_assoc]

theorem mono {f a : Int} (h : m.Grows later f a) (hf : f ≤ held) : m.Grows later held a :=
  ⟨h.follows, fun hh => h.usage (Int.le_trans hf hh)⟩

theorem charge (hb : 0 ≤ bytes) (h : m.allocate bytes what = .ok later) :
    m.Grows later held bytes := by
  refine ⟨Relation.ReflTransGen.single (.charge hb h), fun _ => ?_⟩
  obtain ⟨-, rfl⟩ := allocate_ok h
  rfl

theorem refund (hb : 0 ≤ bytes) : m.Grows (m.release bytes) bytes (-bytes) := by
  refine ⟨Relation.ReflTransGen.single (.refund hb), fun hh => ?_⟩
  rw [release]
  dsimp only
  rw [if_neg (by omega)]
  rfl

theorem swap {new old : Int} (hn : 0 ≤ new) (ho : 0 ≤ old) (h : m.allocate new what = .ok later) :
    m.Grows (later.release old) old (new - old) := by
  have hcharge : m.Grows later old new := .charge hn h
  exact hcharge.trans (.refund ho) (Int.le_refl _) (by omega) Int.sub_eq_add_neg

end Grows

end Meter

section Account

variable {α : Type} [Add α] [LT α] [DecidableLT α] [Amount α] {m : Meter α} {bytes : α} {what : String}

theorem Account.allocate_ok {account : Account α}
    (h : Account.allocate (some m) bytes what = .ok account) :
    ∃ later, m.allocate bytes what = .ok later ∧ account = some later := by
  unfold Account.allocate at h
  dsimp only at h
  cases hm : m.allocate bytes what with
  | error cause =>
    rw [hm] at h
    cases h
  | ok later =>
    rw [hm] at h
    cases h
    exact ⟨later, rfl, rfl⟩

theorem Account.allocate_error {cause : SandboxError}
    (h : Account.allocate (some m) bytes what = .error cause) :
    m.allocate bytes what = .error cause := by
  unfold Account.allocate at h
  dsimp only at h
  cases hm : m.allocate bytes what with
  | error other =>
    rw [hm] at h
    cases h
    rfl
  | ok later =>
    rw [hm] at h
    cases h

end Account

namespace Store

variable {label : String}

theorem steps_grows (label : String) (mutations : List Mutation) {w : Working} {m : Meter}
    (hm : w.account = some m) (held : Int) :
    ∃ later, (steps label mutations w).2.account = some later ∧
      m.Grows later held ((steps label mutations w).2.charged - w.charged) ∧
      w.charged ≤ (steps label mutations w).2.charged := by
  induction mutations generalizing w m held with
  | nil => exact ⟨m, hm, by simpa [steps] using Meter.Grows.refl m, Int.le_refl _⟩
  | cons mutation rest ih =>
    rw [steps]
    split
    · exact ⟨m, hm, by simpa using Meter.Grows.refl m, Int.le_refl _⟩
    · rename_i next hs
      obtain ⟨value, account, -, -, ha, rfl⟩ := step_ok hs
      rw [hm] at ha
      obtain ⟨charged, hc, rfl⟩ := Account.allocate_ok ha
      have hsize := Int.natCast_nonneg value.size
      obtain ⟨later, hl, hgrows, hle⟩ := ih (w := ⟨_, some charged, _⟩) rfl held
      dsimp only at hgrows hle
      exact ⟨later, hl, (Meter.Grows.charge hsize hc).trans hgrows (Int.le_refl _) (by omega)
        (by omega), by omega⟩

theorem settle_grows {m : Meter} {charged delta held : Int} {account : Account} (hc : 0 ≤ charged)
    (hle : charged ≤ held) (hd : charged - delta ≤ held)
    (h : settle (some m) charged delta = .ok account) :
    ∃ later, account = some later ∧ m.Grows later held (delta - charged) := by
  have hback : m.Grows (m.release charged) charged (-charged) := .refund hc
  rw [settle] at h
  dsimp only [Account.release, Option.map_some] at h
  split at h
  · rename_i hpos
    obtain ⟨later, ha, rfl⟩ := Account.allocate_ok h
    have hgrowth : (m.release charged).Grows later 0 delta := .charge (Int.le_of_lt hpos) ha
    exact ⟨later, rfl, hback.trans hgrowth hle (by omega) (by omega)⟩
  · cases h
    have hgrowth : (m.release charged).Grows _ (-delta) _ := .refund (by omega)
    exact ⟨_, rfl, hback.trans hgrowth hle (by omega) (by omega)⟩

theorem growth_of_changed {s t : State} {name : String} (h : changed s t name = false) :
    (growth s t name : Int) = 0 := by
  rw [changed] at h
  rw [growth]
  split
  · rename_i v w hv hw
    rw [hv, hw] at h
    have hsame : v.identical w = true := by simpa using h
    rw [(Value.near_of_identical hsame).size_eq, Int.sub_self]
  · rfl

theorem netGrowth_of_unchanged {s t : State} {names : List String}
    (h : names.filter (changed s t) = []) : (netGrowth s t names : Int) = 0 := by
  rw [netGrowth_eq_sum]
  refine List.sum_eq_zero fun change hc => ?_
  obtain ⟨name, hn, rfl⟩ := List.mem_map.1 hc
  exact growth_of_changed (by simpa using List.filter_eq_nil_iff.1 h name hn)

theorem commit_grows {s : Store} {w : Working} {names : List String} {m : Meter}
    (hm : w.account = some m) (hc : 0 ≤ w.charged) (hnames : s.state.names = w.state.names)
    (hnd : names.Nodup) (hframe : ∀ x, x ∉ names → w.state.get? x = s.state.get? x) :
    ∃ later, (commit s names w).2.account = some later ∧
      m.Grows later (w.charged + sizeOfState s.state)
        (sizeOfState (commit s names w).2.state - sizeOfState s.state - w.charged) := by
  have hdelta := netGrowth_eq hnames hnd hframe
  unfold commit
  rw [hm]
  dsimp only
  split
  · dsimp only [discard]
    rw [hm, Int.sub_self, Int.zero_sub]
    exact ⟨_, rfl, (Meter.Grows.refund hc).mono (by omega)⟩
  · rename_i account hs
    obtain ⟨later, rfl, hgrows⟩ :=
      settle_grows hc (show _ ≤ w.charged + sizeOfState s.state by omega) (by omega) hs
    refine ⟨later, rfl, ?_⟩
    dsimp only
    split
    · rename_i hempty
      rw [netGrowth_of_unchanged (List.isEmpty_iff.1 hempty)] at hgrows
      rwa [Int.sub_self]
    · rwa [← hdelta]

/-- A transaction adds to the meter what the committed state grows by, whether it succeeds or
fails. -/
theorem transact_grows {s : Store} {m : Meter} (hm : s.account = some m) (label : String)
    (mutations : List Mutation) :
    ∃ later, (s.transact label mutations).2.account = some later ∧
      m.Grows later (sizeOfState s.state)
        (sizeOfState (s.transact label mutations).2.state - sizeOfState s.state) := by
  obtain ⟨charged, ha, hgrows, hc⟩ :=
    steps_grows label mutations (w := ⟨s.state, s.account, 0⟩) hm (sizeOfState s.state)
  cases hb : s.busy with
  | true =>
    rw [transact_of_busy hb, Int.sub_self]
    exact ⟨m, hm, .refl m⟩
  | false =>
    rw [transact_of_idle hb]
    split
    · rename_i failure w hs
      rw [hs] at ha hgrows hc
      dsimp only [discard] at ha hgrows hc ⊢
      rw [ha]
      exact ⟨_, rfl, hgrows.trans (.refund hc) (Int.le_refl _) (by omega) (by omega)⟩
    · rename_i w hs
      rw [hs] at ha hgrows hc
      dsimp only at ha hgrows hc
      have hnd : (targets mutations).Nodup := nodup_eraseDups _
      obtain ⟨later, hl, hcommit⟩ :=
        commit_grows ha hc (names_of_steps hs).symm hnd fun _ => get?_of_steps hs
      exact ⟨later, hl, hgrows.trans hcommit (Int.le_refl _) (by omega) (by omega)⟩

theorem create_grows {initial : State} {m : Meter} {s : Store}
    (h : create initial (some m) = .ok s) :
    ∃ later, s = { state := initial, account := some later } ∧
      m.allocate (sizeOfState initial) "initial state" = .ok later := by
  rw [create] at h
  cases ha : Account.allocate (some m) (sizeOfState initial) "initial state" with
  | error cause =>
    rw [ha] at h
    cases h
  | ok account =>
    rw [ha] at h
    cases h
    obtain ⟨later, hl, rfl⟩ := Account.allocate_ok ha
    exact ⟨later, rfl, hl⟩

end Store

theorem Node.size_pos (node : Node) : 0 < node.size := by
  rw [size, sizeOfNodeShell, nodeOverhead]
  omega

theorem Node.size_nonneg (node : Node) : 0 ≤ node.size := Int.le_of_lt node.size_pos

def Node.sizeOfAll (nodes : List Node) : Int := (nodes.map Node.size).sum

@[simp] theorem Node.sizeOfAll_nil : sizeOfAll [] = 0 := rfl

@[simp] theorem Node.sizeOfAll_cons (node : Node) (nodes : List Node) :
    sizeOfAll (node :: nodes) = node.size + sizeOfAll nodes := rfl

theorem Node.sizeOfAll_nonneg (nodes : List Node) : 0 ≤ sizeOfAll nodes := by
  induction nodes with
  | nil => exact Int.le_refl 0
  | cons node rest ih => exact Int.add_nonneg node.size_nonneg ih

theorem Node.sizeOfAll_eq_zero_iff {nodes : List Node} : sizeOfAll nodes = 0 ↔ nodes = [] := by
  cases nodes with
  | nil => exact iff_of_true rfl rfl
  | cons node rest =>
    have hpos := node.size_pos
    have hrest := sizeOfAll_nonneg rest
    rw [sizeOfAll_cons]
    exact iff_of_false (by omega) (List.cons_ne_nil node rest)

namespace View

/-- A pass over a metered view moves its meter; one that succeeds adds what the nodes grow by. -/
structure Metered (m : Meter) (before : Int) (pass : Pass (List Node × List Patch)) : Prop where
  follows : ∃ later, pass.account = some later ∧ m.Follows later
  grows : ∀ result later, pass.outcome = .ok result → pass.account = some later →
    m.Grows later before (Node.sizeOfAll result.1 - before)

theorem Metered.failed {m : Meter} {before : Int} {visits : List Visit} {failure : Failure} :
    Metered m before ⟨visits, some m, .error failure⟩ :=
  ⟨⟨m, rfl, .refl m⟩, fun _ _ h => nomatch h⟩

theorem Metered.ended {m : Meter} {visits : List Visit} {patches : List Patch}
    (nodes : List Node) :
    Metered m (Node.sizeOfAll nodes) ⟨visits, some m, .ok (nodes, patches)⟩ := by
  refine ⟨⟨m, rfl, .refl m⟩, fun result later ho ha => ?_⟩
  cases ho
  cases ha
  rw [Int.sub_self]
  exact .refl m

theorem Metered.extend {m next : Meter} {before whole : Int} {visits : List Visit} {node : Node}
    {patches : List Patch} {rest : Pass (List Node × List Patch)} (hrest : Metered next before rest)
    (hold : 0 ≤ before) (old : Int) (hnext : m.Grows next old (node.size - old))
    (hwhole : whole = old + before) :
    Metered m whole (View.extend visits node patches rest) := by
  obtain ⟨later, hl, hfollows⟩ := hrest.follows
  refine ⟨⟨later, hl, hnext.follows.trans hfollows⟩, fun result later ho ha => ?_⟩
  obtain ⟨tail, htail, rfl⟩ := outcome_extend ho
  have hsize := node.size_nonneg
  rw [Node.sizeOfAll_cons]
  exact hnext.trans (hrest.grows tail later htail ha) (by omega) (by omega) (by omega)

theorem buildNodes_metered (s : State) (ns : List ArenaNode) (m : Meter) :
    Metered m 0 (buildNodes s ns (some m)) := by
  induction ns generalizing m with
  | nil => exact .ended []
  | cons n rest ih =>
    rw [buildNodes]
    split
    · exact .failed
    · dsimp only
      split
      · exact .failed
      · rename_i account ha
        obtain ⟨next, hn, rfl⟩ := Account.allocate_ok ha
        refine (ih next).extend (Int.le_refl 0) 0 ?_ rfl
        rw [Int.sub_zero]
        exact .charge (Node.size_nonneg _) hn

theorem updateNodes_metered (s : State) (wanted : ArenaNode → List Facet) (ns : List ArenaNode)
    (nodes : List Node) (m : Meter) :
    Metered m (Node.sizeOfAll nodes) (updateNodes s wanted ns nodes (some m)) := by
  induction ns generalizing nodes m with
  | nil =>
    simp only [updateNodes]
    exact .ended nodes
  | cons n rest ih =>
    cases nodes with
    | nil =>
      simp only [updateNodes]
      exact .ended []
    | cons before others =>
      have hrest := Node.sizeOfAll_nonneg others
      rw [Node.sizeOfAll_cons]
      rw [updateNodes]
      split
      · exact .failed
      · dsimp only
        split
        · refine (ih others m).extend hrest before.size ?_ rfl
          rw [Int.sub_self]
          exact .refl m
        · split
          · exact .failed
          · rename_i account ha
            obtain ⟨charged, hc, rfl⟩ := Account.allocate_ok ha
            -- The new node is charged before the old one is released, so the refund is never cut off.
            have hswap := Meter.Grows.swap (Node.size_nonneg _) before.size_nonneg hc
            exact (ih others _).extend hrest before.size hswap rfl

theorem materialize_metered {app : Application} {s : State} {m : Meter} {shown : Rendering}
    (h : (materialize app s (some m)).outcome = .ok shown) :
    ∃ later, (materialize app s (some m)).account = some later ∧ m.Grows later 0 shown.tree.size := by
  have hpass := buildNodes_metered s app.nodes m
  obtain ⟨later, hl, -⟩ := hpass.follows
  obtain ⟨result, hr, rfl⟩ := outcome_rendering h
  have hgrows := hpass.grows result later hr hl
  rw [Int.sub_zero] at hgrows
  exact ⟨later, hl, hgrows⟩

theorem reconcile_metered (app : Application) (s : State) (tree : Tree) (dirty : List String)
    (m : Meter) : ∃ later, (reconcile app s (some tree) dirty (some m)).account = some later ∧
      m.Follows later ∧
      ∀ shown, (reconcile app s (some tree) dirty (some m)).outcome = .ok shown →
        m.Grows later tree.size (shown.tree.size - tree.size) := by
  have hpass :=
    updateNodes_metered s (Index.facetsAmong (app.index.readsOf dirty)) app.nodes tree.nodes m
  obtain ⟨later, hl, hfollows⟩ := hpass.follows
  refine ⟨later, hl, hfollows, fun shown h => ?_⟩
  obtain ⟨result, hr, rfl⟩ := outcome_rendering h
  exact hpass.grows result later hr hl

end View

end ReactiveView
