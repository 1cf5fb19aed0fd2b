import Mathlib.Data.List.Forall2
import Mathlib.Data.List.Nodup
import ReactiveView.Proofs.Display
import ReactiveView.Proofs.Loading
import ReactiveView.View.Reconcile

namespace ReactiveView

theorem exists_of_forall₂ {α β : Type} {R : α → β → Prop} {as : List α} {bs : List β}
    (h : List.Forall₂ R as bs) {a : α} (ha : a ∈ as) : ∃ b ∈ bs, R a b := by
  induction h with
  | nil => cases ha
  | cons hab hrest ih =>
    rcases List.mem_cons.1 ha with rfl | ha
    · exact ⟨_, List.mem_cons_self, hab⟩
    · obtain ⟨b, hb, hr⟩ := ih ha
      exact ⟨b, List.mem_cons_of_mem _ hb, hr⟩

/-- A shown value stands for a resolved one: they are equal, or change detection takes them for the
same. -/
def FacetValue.StandsFor (shown resolved : FacetValue) : Prop :=
  shown = resolved ∨ shown.same resolved = true

/-- A node shows the facets of its declaration, each as it resolves in a state that is related to `s`
as regards the variables that the facet reads. -/
structure Node.Tracks (R : List String → State → State → Prop) (s : State) (n : ArenaNode)
    (node : Node) : Prop where
  blank : node.blank = shell n
  facets : node.facets = n.facets
  shows : ∀ facet ∈ n.facets, ∃ seen value, R (n.readsIn facet) seen s ∧
    (n.resolve seen facet).2 = .ok value ∧ (node.read facet).StandsFor value

structure Node.Mirrors (s : State) (n : ArenaNode) (node : Node) : Prop where
  blank : node.blank = shell n
  facets : node.facets = n.facets
  shows : ∀ facet ∈ n.facets, (n.resolve s facet).2 = .ok (node.read facet)

theorem Node.Mirrors.tracks {R : List String → State → State → Prop}
    (hrefl : ∀ names s, R names s s) {s : State} {n : ArenaNode} {node : Node}
    (h : node.Mirrors s n) : node.Tracks R s n :=
  ⟨h.blank, h.facets, fun facet hf =>
    ⟨s, node.read facet, hrefl _ s, h.shows facet hf, Or.inl rfl⟩⟩

namespace View

theorem mem_facets_of_changes {before : Node} {values : List (Facet × FacetValue)} {facet : Facet}
    (h : facet ∈ (changes before values).map Prod.fst) : facet ∈ values.map Prod.fst :=
  (List.filter_sublist.map Prod.fst).subset h

theorem notMem_changes {before : Node} {values : List (Facet × FacetValue)}
    (hnd : (values.map Prod.fst).Nodup) {facet : Facet} {value : FacetValue}
    (hm : (facet, value) ∈ values) (hsame : (before.read facet).same value = true) :
    facet ∉ (changes before values).map Prod.fst := by
  intro hc
  obtain ⟨entry, he, rfl⟩ := List.mem_map.1 hc
  obtain ⟨hmem, hdiff⟩ := List.mem_filter.1 he
  have heq := List.inj_on_of_nodup_map hnd hmem hm rfl
  rw [heq, hsame] at hdiff
  cases hdiff

theorem mirrors_of_resolveAll {s : State} {n : ArenaNode} {values : List (Facet × FacetValue)}
    (h : (n.resolveAll s n.facets).2 = .ok values) :
    ((Node.shell n).writeAll values).Mirrors s n := by
  obtain ⟨hfst, hall⟩ := ArenaNode.resolveAll_ok h
  have htakes : ∀ entry ∈ values, entry.1.Takes entry.2 :=
    fun entry he => ArenaNode.takes_of_resolve (hall entry he)
  refine ⟨Node.blank_writeAll _ _, Node.facets_shell_writeAll htakes hfst, fun facet hf => ?_⟩
  obtain ⟨entry, he, rfl⟩ := List.mem_map.1 (hfst ▸ hf)
  rw [Node.read_writeAll (hfst ▸ n.node.facets_nodup) he (htakes entry he)]
  exact hall entry he

/-- Resolving the wanted facets of a node again keeps it up to date, provided that the states are
related as regards the other facets. -/
theorem tracks_update {R : List String → State → State → Prop} (hrefl : ∀ names s, R names s s)
    (htrans : ∀ names s t u, R names s t → R names t u → R names s u) {s t : State} {n : ArenaNode}
    {before : Node} (h : before.Tracks R s n) {wanted : List Facet}
    (hsub : wanted.Sublist n.facets)
    (hkept : ∀ facet ∈ n.facets, facet ∉ wanted → R (n.readsIn facet) s t)
    {values : List (Facet × FacetValue)} (hv : (n.resolveAll t wanted).2 = .ok values) :
    (before.writeAll (changes before values)).Tracks R t n := by
  obtain ⟨hfst, hall⟩ := ArenaNode.resolveAll_ok hv
  have hnd : (values.map Prod.fst).Nodup := hfst ▸ hsub.nodup n.node.facets_nodup
  have hshown : ∀ entry ∈ changes before values, entry.1 ∈ before.facets := fun entry he => by
    rw [h.facets]
    exact hsub.subset (hfst ▸ List.mem_map_of_mem (List.mem_of_mem_filter he))
  refine ⟨(Node.blank_writeAll _ _).trans h.blank, (Node.facets_writeAll hshown).trans h.facets,
    fun facet hf => ?_⟩
  by_cases hw : facet ∈ wanted
  · obtain ⟨⟨facet, value⟩, he, rfl⟩ := List.mem_map.1 (hfst ▸ hw)
    refine ⟨t, value, hrefl _ t, hall _ he, ?_⟩
    -- A wanted facet that keeps its value by change detection is not written: it stands for the new one.
    by_cases hsame : (before.read facet).same value = true
    · right
      rwa [Node.read_writeAll_of_notMem (notMem_changes hnd he hsame)]
    · have hc : (facet, value) ∈ changes before values :=
        List.mem_filter.2 ⟨he, by simpa using hsame⟩
      exact Or.inl (Node.read_writeAll ((List.filter_sublist.map _).nodup hnd) hc
        (ArenaNode.takes_of_resolve (hall _ he)) before)
  · obtain ⟨seen, value, hread, hres, hstands⟩ := h.shows facet hf
    refine ⟨seen, value, htrans _ _ _ _ hread (hkept facet hf hw), hres, ?_⟩
    rwa [Node.read_writeAll_of_notMem fun hc => hw (hfst ▸ mem_facets_of_changes hc)]

theorem outcome_extend {visits : List Visit} {node : Node} {patches : List Patch}
    {rest : Pass (List Node × List Patch)} {result : List Node × List Patch}
    (h : (extend visits node patches rest).outcome = .ok result) :
    ∃ later, rest.outcome = .ok later ∧ result = (node :: later.1, patches ++ later.2) := by
  rw [extend] at h
  cases hr : rest.outcome with
  | error failure =>
    rw [hr] at h
    cases h
  | ok later =>
    rw [hr] at h
    cases h
    exact ⟨later, rfl, rfl⟩

theorem buildNodes_cons_ok {s : State} {n : ArenaNode} {rest : List ArenaNode} {account : Account}
    {result : List Node × List Patch} (h : (buildNodes s (n :: rest) account).outcome = .ok result) :
    ∃ values next later, (n.resolveAll s n.facets).2 = .ok values ∧
      (buildNodes s rest next).outcome = .ok later ∧
      result = ((Node.shell n).writeAll values :: later.1, patchesOf n values ++ later.2) := by
  rw [buildNodes] at h
  split at h
  · cases h
  · rename_i visits values hv
    dsimp only at h
    split at h
    · cases h
    · rename_i next hnext
      obtain ⟨later, hl, hresult⟩ := outcome_extend h
      exact ⟨values, next, later, congrArg Prod.snd hv, hl, hresult⟩

theorem buildNodes_mirrors {s : State} {ns : List ArenaNode} {account : Account}
    {result : List Node × List Patch} (h : (buildNodes s ns account).outcome = .ok result) :
    List.Forall₂ (fun n (node : Node) => node.Mirrors s n) ns result.1 := by
  induction ns generalizing account result with
  | nil =>
    cases h
    exact .nil
  | cons n rest ih =>
    obtain ⟨values, next, later, hv, hl, rfl⟩ := buildNodes_cons_ok h
    exact .cons (mirrors_of_resolveAll hv) (ih hl)

theorem exists_buildNodes {s : State} {ns : List ArenaNode}
    (h : ∀ n ∈ ns, ∀ facet ∈ n.facets, ∃ value, (n.resolve s facet).2 = .ok value) :
    ∃ result, (buildNodes s ns none).outcome = .ok result := by
  induction ns with
  | nil => exact ⟨_, rfl⟩
  | cons n rest ih =>
    obtain ⟨values, hv⟩ := ArenaNode.exists_resolveAll_ok (h n List.mem_cons_self)
    obtain ⟨later, hl⟩ := ih fun m hm => h m (List.mem_cons_of_mem _ hm)
    have hpair : n.resolveAll s n.facets = ((n.resolveAll s n.facets).1, .ok values) := by
      rw [← hv]
    refine ⟨((Node.shell n).writeAll values :: later.1, patchesOf n values ++ later.2), ?_⟩
    rw [buildNodes]
    rw [hpair]
    simp only [Account.allocate, extend, hl]
    rfl

theorem updateNodes_cons_ok {t : State} {wanted : ArenaNode → List Facet} {n : ArenaNode}
    {rest : List ArenaNode} {before : Node} {others : List Node} {account : Account}
    {result : List Node × List Patch}
    (h : (updateNodes t wanted (n :: rest) (before :: others) account).outcome = .ok result) :
    ∃ values next later, (n.resolveAll t (wanted n)).2 = .ok values ∧
      (updateNodes t wanted rest others next).outcome = .ok later ∧
      (updateNodes t wanted (n :: rest) (before :: others) account).visits =
        (n.resolveAll t (wanted n)).1 ++ (updateNodes t wanted rest others next).visits ∧
      result = (before.writeAll (changes before values) :: later.1,
        patchesOf n (changes before values) ++ later.2) := by
  rw [updateNodes] at h ⊢
  split at h
  · cases h
  · rename_i visits values hv
    rw [hv]
    dsimp only at h ⊢
    split at h
    · rename_i hempty
      obtain ⟨later, hl, hresult⟩ := outcome_extend h
      refine ⟨values, account, later, rfl, hl, by rw [if_pos hempty]; rfl, ?_⟩
      rw [List.isEmpty_iff.1 hempty]
      exact hresult
    · rename_i hchanged
      split at h
      · cases h
      · rename_i charged hcharged
        obtain ⟨later, hl, hresult⟩ := outcome_extend h
        refine ⟨values, _, later, rfl, hl, ?_, hresult⟩
        rw [if_neg hchanged]
        rfl

theorem updateNodes_forall₂ {P Q : ArenaNode → Node → Prop} {t : State}
    {wanted : ArenaNode → List Facet} {ns : List ArenaNode} {nodes : List Node}
    {account : Account} {result : List Node × List Patch}
    (h : (updateNodes t wanted ns nodes account).outcome = .ok result)
    (hp : List.Forall₂ P ns nodes)
    (hstep : ∀ n ∈ ns, ∀ before values, P n before → (n.resolveAll t (wanted n)).2 = .ok values →
      Q n (before.writeAll (changes before values))) : List.Forall₂ Q ns result.1 := by
  induction hp generalizing account result with
  | nil =>
    simp only [updateNodes] at h
    cases h
    exact .nil
  | cons hn hrest ih =>
    rename_i n before rest others
    obtain ⟨values, next, later, hv, hl, -, rfl⟩ := updateNodes_cons_ok h
    have htail := fun m hm => hstep m (List.mem_cons_of_mem _ hm)
    exact .cons (hstep n List.mem_cons_self before values hn hv) (ih hl htail)

theorem error_extend {visits : List Visit} {node : Node} {patches : List Patch}
    {rest : Pass (List Node × List Patch)} {failure : Failure}
    (h : (extend visits node patches rest).outcome = .error failure) :
    rest.outcome = .error failure := by
  rw [extend] at h
  cases hr : rest.outcome with
  | error other =>
    rw [hr] at h
    cases h
    rfl
  | ok later =>
    rw [hr] at h
    cases h

theorem error_of_updateNodes {t : State} {wanted : ArenaNode → List Facet} {ns : List ArenaNode}
    (hns : ∀ n ∈ ns, n.Supplied) (hsub : ∀ n, wanted n ⊆ n.facets) {nodes : List Node}
    {account : Account} {failure : Failure}
    (h : (updateNodes t wanted ns nodes account).outcome = .error failure) :
    ∃ cause, failure = .sandbox cause := by
  induction ns generalizing nodes account with
  | nil =>
    simp only [updateNodes] at h
    cases h
  | cons n rest ih =>
    have htail := fun m hm => hns m (List.mem_cons_of_mem _ hm)
    cases nodes with
    | nil =>
      simp only [updateNodes] at h
      cases h
    | cons before others =>
      rw [updateNodes] at h
      split at h
      · rename_i visits other hv
        cases h
        obtain ⟨facet, hmem, hf⟩ := ArenaNode.error_of_resolveAll (congrArg Prod.snd hv)
        exact ArenaNode.error_of_resolve (hns n List.mem_cons_self) (hsub n hmem) hf
      · dsimp only at h
        split at h
        · exact ih htail (error_extend h)
        · split at h
          · cases h
            exact ⟨_, rfl⟩
          · exact ih htail (error_extend h)

theorem outcome_rendering {outcome : Except Failure (List Node × List Patch)}
    {shown : Rendering} (h : outcome.map rendering = .ok shown) :
    ∃ result, outcome = .ok result ∧ shown = rendering result := by
  cases outcome with
  | error failure => cases h
  | ok result =>
    cases h
    exact ⟨result, rfl, rfl⟩

end View

def Tree.Tracks (R : List String → State → State → Prop) (app : Application) (s : State)
    (tree : Tree) : Prop :=
  List.Forall₂ (fun n (node : Node) => node.Tracks R s n) app.nodes tree.nodes

namespace View

theorem materialize_mirrors {app : Application} {s : State} {account : Account}
    {shown : Rendering} (h : (materialize app s account).outcome = .ok shown) :
    List.Forall₂ (fun n (node : Node) => node.Mirrors s n) app.nodes shown.tree.nodes := by
  obtain ⟨result, hr, rfl⟩ := outcome_rendering h
  exact buildNodes_mirrors hr

theorem materialize_tracks {R : List String → State → State → Prop}
    (hrefl : ∀ names s, R names s s) {app : Application} {s : State} {account : Account}
    {shown : Rendering} (h : (materialize app s account).outcome = .ok shown) :
    shown.tree.Tracks R app s :=
  (materialize_mirrors h).imp fun _ _ hm => hm.tracks hrefl

theorem error_of_reconcile {app : Application} (hns : ∀ n ∈ app.nodes, n.Supplied) {t : State}
    {tree : Tree} {dirty : List String} {account : Account} {failure : Failure}
    (h : (reconcile app t (some tree) dirty account).outcome = .error failure) :
    ∃ cause, failure = .sandbox cause := by
  rw [reconcile] at h
  dsimp only at h
  cases hu : (updateNodes t (Index.facetsAmong (app.index.readsOf dirty)) app.nodes tree.nodes
      account).outcome with
  | ok result =>
    rw [hu] at h
    cases h
  | error other =>
    rw [hu] at h
    cases h
    exact error_of_updateNodes hns (fun n => (ArenaNode.facetsAmong_sublist _ n).subset) hu

/-- Reconciling keeps a tree up to date if the states are related as regards all names that are not
dirty. -/
theorem reconcile_tracks {R : List String → State → State → Prop} (hrefl : ∀ names s, R names s s)
    (htrans : ∀ names s t u, R names s t → R names t u → R names s u) {app : Application}
    (hindex : app.index = Index.ofNodes app.nodes) {s t : State} {tree : Tree}
    (htree : tree.Tracks R app s) {dirty : List String}
    (hclean : ∀ names, (∀ x ∈ names, x ∉ dirty) → R names s t) {account : Account}
    {shown : Rendering} (h : (reconcile app t (some tree) dirty account).outcome = .ok shown) :
    shown.tree.Tracks R app t := by
  obtain ⟨result, hr, rfl⟩ := outcome_rendering h
  refine updateNodes_forall₂ hr htree fun n hn before values hb hv => ?_
  refine tracks_update hrefl htrans hb (ArenaNode.facetsAmong_sublist _ n) ?_ hv
  -- A facet that is not resolved again reads no dirty variable.
  refine fun facet hf hw => hclean _ fun x hx hd => hw ?_
  rw [hindex]
  exact ArenaNode.mem_facetsAmong hn hf hx hd

end View

end ReactiveView
