import Mathlib.Algebra.Order.BigOperators.Group.Finset
import Mathlib.Algebra.Order.BigOperators.Group.List
import ReactiveView.Proofs.Exactness
import ReactiveView.Proofs.Metering

namespace ReactiveView

variable {α : Type}

/-- What an account can still be charged: its limit and the bytes in use. -/
def Account.standing (account : Account α) : Option (Limit × α) :=
  account.map fun m => (m.limit, m.usage)

/-- Working copies that differ at most in the peak of the meter. -/
structure Working.Level (w v : Working α) : Prop where
  state : w.state = v.state
  standing : w.account.standing = v.account.standing
  charged : w.charged = v.charged

structure Store.Level (s t : Store α) : Prop where
  state : s.state = t.state
  standing : s.account.standing = t.account.standing
  busy : s.busy = t.busy

section Standing

set_option linter.unusedSectionVars false

variable [Add α] [Sub α] [Neg α] [LT α] [DecidableLT α] [OfNat α 0] [NatCast α] [Amount α]

namespace Account

theorem allocate_of_standing {a b : Account α} (h : a.standing = b.standing) (bytes : α)
    (what : String) :
    (∃ cause, a.allocate bytes what = .error cause ∧ b.allocate bytes what = .error cause) ∨
      ∃ a' b', a.allocate bytes what = .ok a' ∧ b.allocate bytes what = .ok b' ∧
        a'.standing = b'.standing := by
  cases a with
  | none =>
    cases b with
    | none => exact Or.inr ⟨none, none, rfl, rfl, rfl⟩
    | some n => cases h
  | some m =>
    cases b with
    | none => cases h
    | some n =>
      obtain ⟨hlimit, husage⟩ := Prod.mk.inj (Option.some.inj h)
      simp only [allocate, Meter.allocate, hlimit, husage]
      split
      · exact Or.inl ⟨_, rfl, rfl⟩
      · exact Or.inr ⟨_, _, rfl, rfl, by simp [standing]⟩

theorem standing_release {a b : Account α} (h : a.standing = b.standing) (bytes : α) :
    (a.release bytes).standing = (b.release bytes).standing := by
  have hrelease (c : Account α) : (c.release bytes).standing = c.standing.map fun p =>
      (p.1, if p.2 - bytes < 0 then 0 else p.2 - bytes) := by cases c <;> rfl
  rw [hrelease, hrelease, h]

end Account

namespace Store

variable {label : String}

theorem step_level {w v : Working α} (h : w.Level v) (m : Mutation) :
    (∃ failure, step label m w = .error failure ∧ step label m v = .error failure) ∨
      ∃ w' v', step label m w = .ok w' ∧ step label m v = .ok v' ∧ w'.Level v' := by
  simp only [step, h.state, h.charged]
  split
  · exact Or.inl ⟨_, rfl, rfl⟩
  · split
    · exact Or.inl ⟨_, rfl, rfl⟩
    · rename_i value hv
      rcases Account.allocate_of_standing h.standing value.size ("action \"" ++ label ++ "\"") with
        ⟨cause, hw, hv⟩ | ⟨a, b, hw, hv, hab⟩
      · rw [hw, hv]
        exact Or.inl ⟨_, rfl, rfl⟩
      · rw [hw, hv]
        exact Or.inr ⟨_, _, rfl, rfl, ⟨rfl, hab, rfl⟩⟩

theorem steps_level (label : String) (mutations : List Mutation) {w v : Working α} (h : w.Level v) :
    (steps label mutations w).1 = (steps label mutations v).1 ∧
      (steps label mutations w).2.Level (steps label mutations v).2 := by
  induction mutations generalizing w v with
  | nil => exact ⟨rfl, h⟩
  | cons m rest ih =>
    rw [steps, steps]
    rcases step_level h m with ⟨failure, hw, hv⟩ | ⟨w', v', hw, hv, hl⟩
    · rw [hw, hv]
      exact ⟨rfl, h⟩
    · rw [hw, hv]
      exact ih hl

theorem discard_level {s t : Store α} (h : s.Level t) {w v : Working α} (hw : w.Level v) :
    (s.discard w).Level (t.discard v) := by
  refine ⟨h.state, ?_, h.busy⟩
  rw [discard, discard, hw.charged]
  exact Account.standing_release hw.standing v.charged

theorem settle_level {a b : Account α} (h : a.standing = b.standing) (charged delta : α) :
    (∃ cause, settle a charged delta = .error cause ∧ settle b charged delta = .error cause) ∨
      ∃ a' b', settle a charged delta = .ok a' ∧ settle b charged delta = .ok b' ∧
        a'.standing = b'.standing := by
  have hback := Account.standing_release h charged
  simp only [settle]
  split
  · exact Account.allocate_of_standing hback delta "state commit"
  · exact Or.inr ⟨_, _, rfl, rfl, Account.standing_release hback (-delta)⟩

theorem commit_level {s t : Store α} (h : s.Level t) {w v : Working α} (hw : w.Level v)
    (names : List String) :
    (commit s names w).1 = (commit t names v).1 ∧
      (commit s names w).2.Level (commit t names v).2 := by
  simp only [commit, h.state, hw.state, hw.charged]
  rcases settle_level hw.standing v.charged (netGrowth t.state v.state names) with
    ⟨cause, ha, hb⟩ | ⟨a, b, ha, hb, hab⟩
  · rw [ha, hb]
    exact ⟨rfl, discard_level h hw⟩
  · rw [ha, hb]
    exact ⟨rfl, ⟨rfl, hab, h.busy⟩⟩

theorem transact_level {s t : Store α} (h : s.Level t) (label : String) (mutations : List Mutation) :
    (s.transact label mutations).1 = (t.transact label mutations).1 ∧
      (s.transact label mutations).2.Level (t.transact label mutations).2 := by
  have hstart : Working.Level ⟨s.state, s.account, 0⟩ ⟨t.state, t.account, 0⟩ :=
    ⟨h.state, h.standing, rfl⟩
  have hsteps := steps_level label mutations hstart
  cases hb : t.busy with
  | true =>
    rw [transact_of_busy hb, transact_of_busy (h.busy.trans hb)]
    exact ⟨rfl, h⟩
  | false =>
    rw [transact_of_idle hb, transact_of_idle (h.busy.trans hb)]
    generalize steps label mutations ⟨s.state, s.account, 0⟩ = left at hsteps ⊢
    generalize steps label mutations ⟨t.state, t.account, 0⟩ = right at hsteps ⊢
    obtain ⟨outcome, w⟩ := left
    obtain ⟨_, v⟩ := right
    obtain ⟨rfl, hw⟩ := hsteps
    cases outcome with
    | error failure => exact ⟨rfl, discard_level h hw⟩
    | ok done => exact commit_level h hw (targets mutations)

theorem account_steps_of_none (label : String) (mutations : List Mutation) {w : Working α}
    (h : w.account = none) : (steps label mutations w).2.account = none := by
  induction mutations generalizing w with
  | nil => exact h
  | cons m rest ih =>
    rw [steps]
    split
    · exact h
    · rename_i next hs
      obtain ⟨value, account, -, -, ha, rfl⟩ := step_ok hs
      rw [h] at ha
      cases ha
      exact ih rfl

theorem settle_none (charged delta : α) : settle none charged delta = .ok none := by
  simp only [settle]
  split <;> rfl

theorem account_transact_of_none {s : Store α} (h : s.account = none) (label : String)
    (mutations : List Mutation) : (s.transact label mutations).2.account = none := by
  have hsteps := account_steps_of_none label mutations (w := ⟨s.state, s.account, 0⟩) h
  cases hb : s.busy with
  | true =>
    rw [transact_of_busy hb]
    exact h
  | false =>
    rw [transact_of_idle hb]
    split
    · rename_i failure w hw
      rw [hw] at hsteps
      have hnone : w.account = none := hsteps
      rw [discard, hnone]
      rfl
    · rename_i w hw
      rw [hw] at hsteps
      have hnone : w.account = none := hsteps
      simp only [commit, hnone, settle_none]

end Store

end Standing

namespace Meter

structure Counts (m : Meter Binary64) (bytes : Nat) : Prop where
  usage : m.usage = .ofInt bytes
  peaked : ¬m.peak < m.usage
  limited : ¬m.limit.number < m.usage

/-- There have never been so many bytes in use that whole numbers of bytes are rounded. -/
def Exact (m : Meter Binary64) : Prop := m.peak < Binary64.bound

instance : DecidablePred Exact := fun m => inferInstanceAs (Decidable (m.peak < Binary64.bound))

variable {m later : Meter Binary64} {bytes amount : Nat} {what : String}

theorem lt_of_peaked (husage : m.usage = .ofInt bytes) (hpeaked : ¬m.peak < m.usage) (h : m.Exact) :
    bytes < Binary64.exactBound := by
  refine Binary64.natCast_lt_of_lt_bound (Binary64.lt_of_not_lt ?_ (husage ▸ hpeaked) h)
  exact Binary64.isNaN_ofInt bytes

theorem counts_of_allocate (husage : m.usage = .ofInt bytes) (hpeaked : ¬m.peak < m.usage)
    (h : m.allocate (.ofInt amount) what = .ok later) (hm : m.Exact) (hlater : later.Exact) :
    later.Counts (bytes + amount) ∧ later.limit = m.limit := by
  have hbytes := lt_of_peaked husage hpeaked hm
  rw [allocate] at h
  split at h
  · cases h
  · rename_i hlimited
    cases h
    have hnext : m.usage + .ofInt amount < Binary64.bound := by
      by_cases hraise : m.peak < m.usage + .ofInt amount
      · simpa only [Exact, if_pos hraise] using hlater
      · refine Binary64.lt_of_not_lt ?_ hraise hm
        rw [husage]
        exact Binary64.isNaN_add_ofInt (by omega) amount
    rw [husage] at hnext
    have hsum : m.usage + .ofInt amount = .ofInt (bytes + amount : Nat) := by
      have := Binary64.add_natCast_lt_bound hbytes hnext
      rw [husage]
      exact Binary64.ofInt_add (by omega) (by omega)
    refine ⟨⟨hsum, ?_, hlimited⟩, rfl⟩
    dsimp only
    split
    · exact fun h => absurd (Binary64.lt_iff.1 h).2.2 (Int.lt_irrefl _)
    · assumption

theorem Counts.release {rest : Nat} {x : Binary64} (h : m.Counts bytes) (hm : m.Exact)
    (hrest : m.usage - x = .ofInt rest) (hle : rest ≤ bytes) : (m.release x).Counts rest := by
  have hbytes := lt_of_peaked h.usage h.peaked hm
  have husage : (m.release x).usage = .ofInt rest := by
    have hneg : ¬Binary64.ofInt rest < 0 := by
      rw [Binary64.zero_eq, Binary64.ofInt_lt_ofInt (by omega) (by decide)]
      omega
    rw [Meter.release, hrest, if_neg hneg]
  have hbelow {y : Binary64} (hy : ¬y < m.usage) : ¬y < (m.release x).usage := by
    rw [husage]
    exact Binary64.not_lt_ofInt_of_le (by omega) (by omega) (by omega) (h.usage ▸ hy)
  exact ⟨husage, hbelow h.peaked, hbelow h.limited⟩

theorem exists_allocate {reached : Nat} (husage : m.usage = .ofInt bytes)
    (hreached : reached < Binary64.exactBound) (hpeak : ¬m.peak < .ofInt reached)
    (hlimit : ¬m.limit.number < .ofInt reached) (hle : bytes + amount ≤ reached) (what : String) :
    ∃ later, m.allocate (.ofInt amount) what = .ok later ∧ later.Counts (bytes + amount) := by
  have hsum : m.usage + .ofInt amount = .ofInt (bytes + amount : Nat) := by
    rw [husage]
    exact Binary64.ofInt_add (by omega) (by omega)
  have hbelow {y : Binary64} (hy : ¬y < .ofInt reached) : ¬y < m.usage + .ofInt amount := by
    rw [hsum]
    exact Binary64.not_lt_ofInt_of_le (by omega) (by omega) (by omega) hy
  have hgranted : ¬Amount.cap m.limit < m.usage + .ofInt amount := hbelow hlimit
  rw [allocate, if_neg hgranted, if_neg (hbelow hpeak)]
  exact ⟨_, rfl, hsum, hbelow hpeak, hbelow hlimit⟩

end Meter

namespace Account

structure Precedes (a b : Account Binary64) : Prop where
  limit : b.map (·.limit) = a.map (·.limit)
  exact : (∀ m ∈ b, m.Exact) → ∀ m ∈ a, m.Exact

theorem Precedes.refl (a : Account Binary64) : a.Precedes a := ⟨rfl, id⟩

theorem Precedes.trans {a b c : Account Binary64} (h : a.Precedes b) (h' : b.Precedes c) :
    a.Precedes c :=
  ⟨h'.limit.trans h.limit, fun hc => h.exact (h'.exact hc)⟩

theorem precedes_allocate {a b : Account Binary64} {amount : Binary64} {what : String}
    (h : a.allocate amount what = .ok b) : a.Precedes b := by
  cases a with
  | none =>
    cases h
    exact .refl none
  | some m =>
    rw [allocate, Meter.allocate] at h
    split at h
    · cases h
    · cases h
      refine ⟨rfl, fun hexact => ?_⟩
      simp only [Option.mem_some_iff, forall_eq'] at hexact ⊢
      dsimp only [Meter.Exact] at hexact
      split at hexact
      · rename_i hraise
        exact Binary64.lt_trans hraise hexact
      · exact hexact

theorem precedes_release (a : Account Binary64) (amount : Binary64) :
    a.Precedes (a.release amount) := by
  cases a with
  | none => exact .refl none
  | some m => exact ⟨rfl, fun h => by simpa [release, Meter.release, Meter.Exact] using h⟩

end Account

namespace Store

variable {label : String}

theorem precedes_steps (label : String) (mutations : List Mutation) (w : Working Binary64) :
    w.account.Precedes (steps label mutations w).2.account := by
  induction mutations generalizing w with
  | nil => exact .refl _
  | cons m rest ih =>
    rw [steps]
    split
    · exact .refl _
    · rename_i next hs
      obtain ⟨value, account, -, -, ha, rfl⟩ := step_ok hs
      exact (Account.precedes_allocate ha).trans (ih ⟨_, account, _⟩)

theorem precedes_settle {a b : Account Binary64} {charged delta : Binary64}
    (h : settle a charged delta = .ok b) : a.Precedes b := by
  have hback := Account.precedes_release a charged
  rw [settle] at h
  split at h
  · exact hback.trans (Account.precedes_allocate h)
  · cases h
    exact hback.trans (Account.precedes_release _ _)

theorem precedes_commit (s : Store Binary64) (names : List String) (w : Working Binary64) :
    w.account.Precedes (commit s names w).2.account := by
  rw [commit]
  split
  · exact Account.precedes_release _ _
  · rename_i account ha
    exact precedes_settle ha

theorem precedes_transact (s : Store Binary64) (label : String) (mutations : List Mutation) :
    s.account.Precedes (s.transact label mutations).2.account := by
  have hsteps := precedes_steps label mutations ⟨s.state, s.account, 0⟩
  cases hb : s.busy with
  | true =>
    rw [transact_of_busy hb]
    exact .refl _
  | false =>
    rw [transact_of_idle hb]
    split
    · rename_i failure w hw
      rw [hw] at hsteps
      exact hsteps.trans (Account.precedes_release _ _)
    · rename_i w hw
      rw [hw] at hsteps
      exact hsteps.trans (precedes_commit s _ w)

theorem sizeOfState_put_le {s : State} {name : String} (value : Value) (h : name ∈ s.names) :
    (sizeOfState (s.put name value) : Int) ≤ sizeOfState s + value.size := by
  have htotal : (netGrowth s (s.put name value) [name] : Int) = _ :=
    netGrowth_eq (Table.names_put value h).symm (List.nodup_singleton name) fun x hx => by
      rw [Table.get?_put, if_neg (by simpa using hx)]
  obtain ⟨old, hold⟩ := Table.get?_eq_some_of_mem h
  have hgrowth : (growth s (s.put name value) name : Int) = value.size - old.size := by
    rw [growth, hold, Table.get?_put, if_pos rfl]
  rw [netGrowth_eq_sum] at htotal
  simp only [List.map_cons, List.map_nil, List.sum_cons, List.sum_nil, hgrowth] at htotal
  omega

theorem counts_steps (label : String) (mutations : List Mutation) {w : Working Binary64}
    {m : Meter Binary64} {bytes charged : Nat} (hm : w.account = some m) (hcounts : m.Counts bytes)
    (hcharged : w.charged = .ofInt charged) (hle : charged ≤ bytes)
    (hexact : ∀ m ∈ (steps label mutations w).2.account, m.Exact) :
    ∃ later more, (steps label mutations w).2.account = some later ∧ later.Counts (bytes + more) ∧
      (steps label mutations w).2.charged = .ofInt (charged + more : Nat) ∧
      (sizeOfState (steps label mutations w).2.state : Int) ≤ sizeOfState w.state + more := by
  induction mutations generalizing w m bytes charged with
  | nil => exact ⟨m, 0, hm, hcounts, hcharged, Int.le_refl _⟩
  | cons mutation rest ih =>
    rw [steps] at hexact ⊢
    split at hexact
    · exact ⟨m, 0, hm, hcounts, hcharged, Int.le_refl _⟩
    · rename_i next hs
      obtain ⟨value, account, hmem, -, ha, rfl⟩ := step_ok hs
      have hnext := (precedes_steps label rest _).exact hexact
      rw [hm, Binary64.natCast_eq] at ha
      have hexactm := (Account.precedes_allocate ha).exact hnext m rfl
      obtain ⟨later, hcharge, rfl⟩ := Account.allocate_ok ha
      have hlater := (Meter.counts_of_allocate hcounts.usage hcounts.peaked hcharge hexactm
        (hnext later rfl)).1
      have hlt := Meter.lt_of_peaked hlater.usage hlater.peaked (hnext later rfl)
      have hsum : w.charged + (value.size : Binary64) = .ofInt (charged + value.size : Nat) := by
        rw [hcharged, Binary64.natCast_eq]
        exact Binary64.ofInt_add (by omega) (by omega)
      have hput := sizeOfState_put_le value hmem
      -- The rest starts from what has been charged up to this mutation.
      obtain ⟨last, more, hlast, hcount, htotal, hsize⟩ := ih (w := ⟨_, some later, _⟩) rfl hlater hsum
        (by omega) hexact
      rw [Nat.add_assoc] at hcount htotal
      refine ⟨last, value.size + more, hlast, hcount, htotal, ?_⟩
      dsimp only at hsize
      omega

theorem sum_sizeAt_le {s : State} {names : List String} (hnd : names.Nodup) :
    0 ≤ (names.map (sizeAt s)).sum ∧ (names.map (sizeAt s)).sum ≤ sizeOfState s := by
  have hnonneg (x : String) : 0 ≤ sizeAt s x := by
    rw [sizeAt]
    split <;> omega
  refine ⟨List.sum_nonneg fun size hs => ?_, ?_⟩
  · obtain ⟨x, -, rfl⟩ := List.mem_map.1 hs
    exact hnonneg x
  · have hall : (s.names.map (sizeAt s)).sum = ∑ x ∈ names.toFinset ∪ s.names.toFinset, sizeAt s x := by
      rw [← List.sum_toFinset _ (show s.names.Nodup from s.nodup)]
      refine Finset.sum_subset Finset.subset_union_right fun x _ hx => ?_
      rw [sizeAt, Table.get?_eq_none.2 (by simpa using hx)]
    rw [sizeOfState_eq_sum, hall, ← List.sum_toFinset _ hnd]
    exact Finset.sum_le_sum_of_subset_of_nonneg Finset.subset_union_left fun x _ _ => hnonneg x

theorem size_le_sizeOfState {s : State} {name : String} {v : Value} (h : s.get? name = some v) :
    v.size ≤ sizeOfState s := by
  have hle := (sum_sizeAt_le (s := s) (List.nodup_singleton name)).2
  simp only [List.map_cons, List.map_nil, List.sum_cons, List.sum_nil, sizeAt, h, sizeOfEntry] at hle
  omega

theorem netGrowth_eq_ofInt {s t : State} (hnames : s.names = t.names) {names : List String}
    (hnd : names.Nodup) (hs : sizeOfState s < Binary64.exactBound)
    (ht : sizeOfState t < Binary64.exactBound) :
    netGrowth s t names = Binary64.ofInt (netGrowth s t names) := by
  -- The growths are added from the left, so the induction takes names off the end.
  induction names using List.reverseRecOn with
  | nil => exact Binary64.zero_eq
  | append_singleton names name ih =>
    have hprefix : names.Nodup := hnd.sublist (List.sublist_append_left _ _)
    have hpart : (netGrowth s t names : Int) = (names.map (sizeAt t)).sum - (names.map (sizeAt s)).sum := by
      rw [netGrowth_eq_sum, List.map_congr_left fun x _ => growth_eq hnames x, sum_map_sub]
    have hbefore := sum_sizeAt_le (s := s) hprefix
    have hafter := sum_sizeAt_le (s := t) hprefix
    have hgrowth : growth s t name = Binary64.ofInt (growth s t name) ∧
        (growth s t name : Int).natAbs < Binary64.exactBound := by
      simp only [growth]
      split
      · rename_i v w hv hw
        have := size_le_sizeOfState hv
        have := size_le_sizeOfState hw
        rw [Binary64.natCast_eq, Binary64.natCast_eq]
        exact ⟨Binary64.ofInt_sub (by omega) (by omega), by omega⟩
      · exact ⟨Binary64.zero_eq, by decide⟩
    have hsnoc : netGrowth s t (names ++ [name]) =
        netGrowth s t names + (growth s t name : Binary64) := by
      rw [netGrowth, List.foldl_append]
      rfl
    have hsnoc' : netGrowth s t (names ++ [name]) = netGrowth s t names + (growth s t name : Int) := by
      rw [netGrowth, List.foldl_append]
      rfl
    rw [hsnoc, hsnoc', ih hprefix, hgrowth.1]
    exact Binary64.ofInt_add (by omega) hgrowth.2

theorem exists_settle {m : Meter Binary64} {charged : Binary64} {base more after : Nat} {delta : Int}
    (hcounts : m.Counts (base + more)) (hexact : m.Exact) (hback : (m.release charged).Counts base)
    (hafter : (after : Int) = base + delta) (hle : delta ≤ more) :
    ∃ last, settle (some m) charged (.ofInt delta) = .ok (some last) ∧ last.Counts after := by
  have hlt := Meter.lt_of_peaked hcounts.usage hcounts.peaked hexact
  have hpositive : (0 : Binary64) < .ofInt delta ↔ 0 < delta := by
    rw [Binary64.zero_eq, Binary64.ofInt_lt_ofInt (by decide) (by omega)]
  rw [settle]
  by_cases hpos : 0 < delta
  · obtain ⟨amount, rfl⟩ := Int.eq_ofNat_of_zero_le (Int.le_of_lt hpos)
    obtain rfl : after = base + amount := by omega
    have hpeak : ¬(m.release charged).peak < .ofInt (base + more : Nat) := hcounts.usage ▸ hcounts.peaked
    have hlimit : ¬(m.release charged).limit.number < .ofInt (base + more : Nat) :=
      hcounts.usage ▸ hcounts.limited
    obtain ⟨last, hlast, hcount⟩ :=
      Meter.exists_allocate hback.usage hlt hpeak hlimit (by omega : base + amount ≤ base + more) "state commit"
    rw [if_pos (hpositive.2 hpos)]
    exact ⟨last, congrArg (Except.map some) hlast, hcount⟩
  · rw [if_neg (hpositive.not.2 hpos)]
    refine ⟨_, rfl, hback.release hexact ?_ (by omega)⟩
    rw [Binary64.sub_neg, hback.usage, Binary64.ofInt_add (by omega) (by omega), hafter]

structure Sound (held : Nat) (s : Store Binary64) : Prop where
  idle : s.busy = false
  counts : ∀ m ∈ s.account, m.Counts (sizeOfState s.state + held)

section Sound

variable {held : Nat} {s : Store Binary64} (hs : Sound held s) {label : String}
  {mutations : List Mutation} {w : Working Binary64}

include hs

theorem Sound.charges {m : Meter Binary64} {outcome : Except Failure Unit} (hm : s.account = some m)
    (hsteps : steps label mutations ⟨s.state, s.account, 0⟩ = (outcome, w))
    (hexact : ∀ m ∈ w.account, m.Exact) :
    ∃ later more, w.account = some later ∧ later.Counts (sizeOfState s.state + held + more) ∧
      (later.release w.charged).Counts (sizeOfState s.state + held) ∧
      (sizeOfState w.state : Int) ≤ sizeOfState s.state + more ∧
      sizeOfState s.state + held + more < Binary64.exactBound := by
  obtain ⟨later, more, hlater, hcounts, hcharged, hsize⟩ :=
    counts_steps label mutations (w := ⟨s.state, s.account, 0⟩) hm (hs.counts m hm)
      Binary64.zero_eq (Nat.zero_le _) (by rwa [hsteps])
  rw [hsteps] at hlater hcharged hsize
  rw [Nat.zero_add] at hcharged
  have hlt := Meter.lt_of_peaked hcounts.usage hcounts.peaked (hexact later hlater)
  -- Without the charges the meter counts what it did at the start.
  have hrest : later.usage - w.charged = .ofInt (sizeOfState s.state + held : Nat) := by
    rw [hcounts.usage, hcharged, Binary64.ofInt_sub (by omega) (by omega)]
    congr 1
    omega
  exact ⟨later, more, hlater, hcounts, hcounts.release (hexact later hlater) hrest (by omega), hsize, hlt⟩

theorem Sound.discard_level {outcome : Except Failure Unit}
    (hsteps : steps label mutations ⟨s.state, s.account, 0⟩ = (outcome, w))
    (hexact : ∀ m ∈ w.account, m.Exact) : Sound held (s.discard w) ∧ (s.discard w).Level s := by
  have hlimit := (precedes_steps label mutations ⟨s.state, s.account, 0⟩).limit
  rw [hsteps] at hlimit
  cases hm : s.account with
  | none =>
    have hnone := account_steps_of_none label mutations (w := ⟨s.state, s.account, 0⟩) hm
    rw [hsteps] at hnone
    dsimp only at hnone
    refine ⟨⟨hs.idle, fun m hm => ?_⟩, rfl, ?_, rfl⟩
    · rw [discard, hnone] at hm
      cases hm
    · rw [discard, hnone, hm]
      rfl
  | some m =>
    obtain ⟨later, more, hlater, -, hback, -⟩ := hs.charges hm hsteps hexact
    rw [hlater, hm] at hlimit
    have haccount : (s.discard w).account = some (later.release w.charged) := by
      rw [discard, hlater]
      rfl
    refine ⟨⟨hs.idle, fun m hm => ?_⟩, rfl, ?_, rfl⟩
    · rw [haccount] at hm
      cases hm
      exact hback
    · rw [haccount, hm]
      exact congrArg some (Prod.ext (Option.some.inj hlimit) (hback.usage.trans (hs.counts m hm).usage.symm))

theorem Sound.exists_commit (hsteps : steps label mutations ⟨s.state, s.account, 0⟩ = (.ok (), w))
    (hexact : ∀ m ∈ w.account, m.Exact) :
    ∃ dirty later, commit s (targets mutations) w = (.ok dirty, later) ∧ Sound held later := by
  have hnd : (targets mutations).Nodup := nodup_eraseDups _
  have hnames : s.state.names = w.state.names := (names_of_steps hsteps).symm
  cases hm : s.account with
  | none =>
    have hnone := account_steps_of_none label mutations (w := ⟨s.state, s.account, 0⟩) hm
    rw [hsteps] at hnone
    dsimp only at hnone
    simp only [commit, hnone, settle_none]
    refine ⟨_, _, rfl, hs.idle, fun m hm => ?_⟩
    cases hm
  | some m =>
    obtain ⟨later, more, hlater, hcounts, hback, hsize, hlt⟩ := hs.charges hm hsteps hexact
    have hdelta := netGrowth_eq hnames hnd fun _ => get?_of_steps hsteps
    have hgrowth := netGrowth_eq_ofInt hnames hnd (s := s.state) (t := w.state) (by omega) (by omega)
    -- the later state takes the place of the former one
    have hafter : ((sizeOfState w.state + held : Nat) : Int) =
        (sizeOfState s.state + held : Nat) + netGrowth s.state w.state (targets mutations) := by omega
    obtain ⟨last, hlast, hcount⟩ := exists_settle hcounts (hexact later hlater) hback hafter (by omega)
    rw [← hgrowth, ← hlater] at hlast
    simp only [commit, hlast]
    refine ⟨_, _, rfl, hs.idle, fun m hm => ?_⟩
    cases hm
    dsimp only
    split
    · rename_i hclean
      rw [netGrowth_of_unchanged (List.isEmpty_iff.1 hclean)] at hdelta
      rwa [show sizeOfState s.state = sizeOfState w.state by omega]
    · exact hcount

/-- A transaction that fails leaves no trace but in the peak; one whose mutations are evaluated and charged
does not fail. -/
theorem Sound.transact (label : String) (mutations : List Mutation)
    (hexact : ∀ m ∈ (s.transact label mutations).2.account, m.Exact) :
    Sound held (s.transact label mutations).2 ∧
    (∀ failure, (s.transact label mutations).1 = .error failure →
      (s.transact label mutations).2.Level s) ∧
    ∀ w, steps label mutations ⟨s.state, s.account, 0⟩ = (.ok (), w) →
      ∃ dirty later, commit s (targets mutations) w = (.ok dirty, later) ∧
        s.transact label mutations = (.ok dirty, later) := by
  rw [transact_of_idle hs.idle] at hexact ⊢
  split at hexact
  · rename_i failure w hsteps
    have hdiscard := hs.discard_level hsteps
      ((Account.precedes_release w.account w.charged).exact hexact)
    rw [hsteps]
    exact ⟨hdiscard.1, fun _ _ => hdiscard.2, fun w h => nomatch h⟩
  · rename_i w hsteps
    obtain ⟨dirty, later, hcommit, hsound⟩ :=
      hs.exists_commit hsteps ((precedes_commit s _ w).exact hexact)
    rw [hsteps]
    refine ⟨?_, fun failure h => ?_, fun v hv => ?_⟩
    · rwa [hcommit]
    · rw [hcommit] at h
      cases h
    · cases hv
      exact ⟨dirty, later, hcommit, hcommit⟩

/-- Others charge some bytes as well. -/
theorem Sound.allocate {bytes : Nat} {what : String} {account : Account Binary64}
    (ha : s.account.allocate (bytes : Binary64) what = .ok account) (hexact : ∀ m ∈ account, m.Exact) :
    Sound (held + bytes) { s with account } := by
  have hbefore := (Account.precedes_allocate ha).exact hexact
  refine ⟨hs.idle, fun m hm => ?_⟩
  cases hs' : s.account with
  | none =>
    rw [hs'] at ha
    cases ha
    cases hm
  | some before =>
    have hcounts := hs.counts before hs'
    have hexactm := hbefore before hs'
    rw [hs', Binary64.natCast_eq] at ha
    obtain ⟨charged, hcharge, rfl⟩ := Account.allocate_ok ha
    cases hm
    rw [← Nat.add_assoc]
    exact (Meter.counts_of_allocate hcounts.usage hcounts.peaked hcharge hexactm (hexact _ rfl)).1

/-- What others give back was charged before, so the count stays a whole number and is not cut off. -/
theorem Sound.release (hexact : ∀ m ∈ s.account, m.Exact) {bytes : Nat} (hle : bytes ≤ held) :
    Sound (held - bytes) { s with account := s.account.release (bytes : Binary64) } := by
  refine ⟨hs.idle, fun m hm => ?_⟩
  cases hs' : s.account with
  | none =>
    rw [hs'] at hm
    cases hm
  | some before =>
    have hcounts := hs.counts before hs'
    have hexactm := hexact before hs'
    have hlt := Meter.lt_of_peaked hcounts.usage hcounts.peaked hexactm
    rw [hs'] at hm
    cases hm
    refine hcounts.release hexactm ?_ (by dsimp only; omega)
    rw [hcounts.usage, Binary64.natCast_eq]
    refine (Binary64.ofInt_sub (by omega) (by omega)).trans (congrArg _ ?_)
    dsimp only
    omega

end Sound

theorem sound_of_create {held : Nat} {initial : State} {account : Account Binary64} {s : Store Binary64}
    (h : ∀ m ∈ account, m.usage = .ofInt held ∧ ¬m.peak < m.usage) (hs : create initial account = .ok s)
    (hexact : ∀ m ∈ s.account, m.Exact) : Sound held s := by
  rw [create, Binary64.natCast_eq] at hs
  cases ha : account.allocate (.ofInt (sizeOfState initial)) "initial state" with
  | error cause =>
    rw [ha] at hs
    cases hs
  | ok later =>
    rw [ha] at hs
    cases hs
    refine ⟨rfl, fun m hm => ?_⟩
    cases account with
    | none =>
      cases ha
      cases hm
    | some before =>
      obtain ⟨husage, hpeaked⟩ := h before rfl
      have hbefore := (Account.precedes_allocate ha).exact hexact before rfl
      obtain ⟨charged, hcharge, rfl⟩ := Account.allocate_ok ha
      cases hm
      have hcounts := (Meter.counts_of_allocate husage hpeaked hcharge hbefore (hexact _ rfl)).1
      rwa [Nat.add_comm] at hcounts

theorem accepts_of_idle {s : Store Binary64} (hidle : s.busy = false) (label : String)
    (mutations : List Mutation) (refused : String) :
    (s.transact label mutations).1 ≠ .error (.defect (.nestedTransaction refused)) := by
  intro h
  rcases transact_error h with ⟨hbusy, -⟩ | ⟨_, m, _, w, -, -, hstep⟩ | ⟨_, _, cause, -, ⟨⟩⟩
  · rw [hidle] at hbusy
    cases hbusy
  · rcases step_error hstep with ⟨-, ⟨⟩⟩ | ⟨fault, -, hfault⟩ | ⟨_, cause, -, ⟨⟩⟩
    cases fault <;> cases hfault

end Store

inductive StoreCall where
  | apply (action : Action)
  | assign (name : String) (value : Value)

namespace StoreCall

variable {α : Type} [Add α] [Sub α] [Neg α] [LT α] [DecidableLT α] [OfNat α 0] [NatCast α] [Amount α]

def run (s : Store α) : StoreCall → Except Failure (List String) × Store α
  | .apply action => s.apply action
  | .assign name value => s.assign name value

def label : StoreCall → String
  | .apply action => action.name
  | .assign name _ => "bind:" ++ name

def mutations : StoreCall → List Mutation
  | .apply action => action.mutations
  | .assign name value => [⟨name, .literal value⟩]

theorem run_eq_transact (s : Store α) (call : StoreCall) :
    call.run s = s.transact call.label call.mutations := by cases call <;> rfl

end StoreCall

namespace Store

/-- A store shares its meter with others, who hold some whole number of bytes: it is reached by calls that
succeed or fail, while the others charge whole numbers of bytes and give back no more than they charged. -/
inductive Shared : Nat → Store Binary64 → Prop where
  | created {held : Nat} {initial : State} {account : Account Binary64} {s : Store Binary64}
    (h : ∀ m ∈ account, m.usage = .ofInt held ∧ ¬m.peak < m.usage)
    (hs : create initial account = .ok s) : Shared held s
  | called {held : Nat} {s : Store Binary64} (h : Shared held s) (call : StoreCall) :
    Shared held (call.run s).2
  | charged {held : Nat} {s : Store Binary64} (h : Shared held s) {bytes : Nat} {what : String}
    {account : Account Binary64} (ha : s.account.allocate (bytes : Binary64) what = .ok account) :
    Shared (held + bytes) { s with account }
  | refunded {held : Nat} {s : Store Binary64} (h : Shared held s) {bytes : Nat} (hle : bytes ≤ held) :
    Shared (held - bytes) { s with account := s.account.release (bytes : Binary64) }

theorem Shared.sound {held : Nat} {s : Store Binary64} (h : Shared held s)
    (hexact : ∀ m ∈ s.account, m.Exact) : Sound held s := by
  -- The peak only grows, so the meter was exact at each earlier point as well.
  induction h with
  | created h hs => exact sound_of_create h hs hexact
  | @called held s _ call ih =>
    rw [StoreCall.run_eq_transact] at hexact ⊢
    have hbefore := ih ((precedes_transact s call.label call.mutations).exact hexact)
    exact (hbefore.transact call.label call.mutations hexact).1
  | charged _ ha ih => exact (ih ((Account.precedes_allocate ha).exact hexact)).allocate ha hexact
  | refunded _ hle ih =>
    have hbefore := (Account.precedes_release _ _).exact hexact
    exact (ih hbefore).release hbefore hle

end Store

end ReactiveView
