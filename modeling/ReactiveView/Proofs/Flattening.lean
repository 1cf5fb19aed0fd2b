import Mathlib.Data.List.Forall2
import Mathlib.Logic.Relation
import ReactiveView.Proofs.Noninterference

namespace ReactiveView

namespace ViewNode

mutual

theorem induction {P : ViewNode → Prop} (h : ∀ node, (∀ child ∈ node.children, P child) → P node) :
    ∀ node, P node
  | ⟨kind, props, children, text⟩ => h ⟨kind, props, children, text⟩ (inductionAll h children)

theorem inductionAll {P : ViewNode → Prop}
    (h : ∀ node, (∀ child ∈ node.children, P child) → P node) :
    ∀ nodes : List ViewNode, ∀ child ∈ nodes, P child
  | [] => List.forall_mem_nil P
  | node :: rest => List.forall_mem_cons.2 ⟨induction h node, inductionAll h rest⟩

end

mutual

def preorder : ViewNode → List ViewNode
  | ⟨kind, props, children, text⟩ => ⟨kind, props, children, text⟩ :: preorderAll children

def preorderAll : List ViewNode → List ViewNode
  | [] => []
  | node :: rest => node.preorder ++ preorderAll rest

end

def follow : ViewNode → List Nat → Option ViewNode
  | node, [] => some node
  | node, position :: path => node.children[position]?.bind fun child => child.follow path

mutual

/-- Lay out a tree by adding to one list: a node is added before its children, and their positions are
filled in when all of them are there. -/
def push (parent : Option Nat) (path : List Nat) : ViewNode → List ArenaNode → List ArenaNode
  | ⟨kind, props, children, text⟩, nodes =>
    let entry (refs : List Nat) : ArenaNode :=
      ⟨nodes.length, ⟨kind, props, children, text⟩, parent, refs, path⟩
    let result := pushAll nodes.length path 0 children (nodes ++ [entry []])
    result.2.set nodes.length (entry result.1)

def pushAll (parent : Nat) (path : List Nat) (position : Nat) :
    List ViewNode → List ArenaNode → List Nat × List ArenaNode
  | [], nodes => ([], nodes)
  | child :: rest, nodes =>
    let later := child.push (some parent) (path ++ [position]) nodes
    let result := pushAll parent path (position + 1) rest later
    (nodes.length :: result.1, result.2)

end

/-- Tree below a position of a list of nodes, put together by following the positions of the children,
which have to come later. -/
def ofArena (nodes : List ArenaNode) (ref : Nat) : Option ViewNode :=
  if h : ref < nodes.length then
    (nodes[ref].children.mapM fun child => if ref < child then ofArena nodes child else none).map
      fun children => ⟨nodes[ref].node.kind, nodes[ref].node.props, children, nodes[ref].node.text⟩
  else none
termination_by nodes.length - ref

theorem place_eq (ref : Nat) (parent : Option Nat) (path : List Nat) (node : ViewNode) :
    node.place ref parent path = ⟨ref, node, parent, childRefs (ref + 1) node.children, path⟩ ::
      placeAll (ref + 1) ref path 0 node.children := by
  cases node
  rw [place]

mutual

theorem node_place (ref : Nat) (parent : Option Nat) (path : List Nat) : ∀ node : ViewNode,
    (node.place ref parent path).map ArenaNode.node = node.preorder
  | ⟨kind, props, children, text⟩ => by
    have hchildren := node_placeAll (ref + 1) ref path 0 children
    rw [place, preorder, List.map_cons, hchildren]

theorem node_placeAll (next parent : Nat) (path : List Nat) (position : Nat) :
    ∀ nodes : List ViewNode,
      (placeAll next parent path position nodes).map ArenaNode.node = preorderAll nodes
  | [] => by rw [placeAll, preorderAll, List.map_nil]
  | child :: rest => by
    have hchild := node_place next (some parent) (path ++ [position]) child
    have hrest := node_placeAll (next + child.size) parent path (position + 1) rest
    rw [placeAll, preorderAll, List.map_append, hchild, hrest]

end

mutual

theorem push_eq (parent : Option Nat) (path : List Nat) : ∀ (node : ViewNode)
    (nodes : List ArenaNode),
    node.push parent path nodes = nodes ++ node.place nodes.length parent path
  | ⟨kind, props, children, text⟩, nodes => by
    rw [push, place]
    dsimp only
    -- The node stands at the end of what was there before, where its children are filled in later.
    rw [pushAll_eq, List.length_append, List.length_singleton, List.append_assoc, List.set_append,
      if_neg (Nat.lt_irrefl _), Nat.sub_self, List.singleton_append, List.set_cons_zero]

theorem pushAll_eq (parent : Nat) (path : List Nat) (position : Nat) : ∀ (children : List ViewNode)
    (nodes : List ArenaNode),
    pushAll parent path position children nodes = (childRefs nodes.length children,
      nodes ++ placeAll nodes.length parent path position children)
  | [], nodes => by rw [pushAll, childRefs, placeAll, List.append_nil]
  | child :: rest, nodes => by
    have hchild := push_eq (some parent) (path ++ [position]) child nodes
    rw [pushAll, hchild, pushAll_eq parent path (position + 1) rest, childRefs, placeAll,
      List.length_append, length_place, List.append_assoc]

end

theorem mem_childRefs {next child : Nat} {nodes : List ViewNode} (h : child ∈ childRefs next nodes) :
    child < next + sizeAll nodes := by
  induction nodes generalizing next with
  | nil => cases h
  | cons node rest ih =>
    have hsize : 0 < node.size := by
      cases node
      rw [size]
      omega
    rw [childRefs, List.mem_cons] at h
    rw [sizeAll]
    rcases h with rfl | h
    · omega
    · have := ih h
      omega

mutual

theorem children_place (ref : Nat) (parent : Option Nat) (path : List Nat) :
    ∀ node : ViewNode, ∀ n ∈ node.place ref parent path, ∀ child ∈ n.children,
      child < ref + node.size
  | ⟨kind, props, children, text⟩ => by
    intro n hn child hc
    rw [place, List.mem_cons] at hn
    rw [size]
    rcases hn with rfl | hn
    · have := mem_childRefs hc
      omega
    · have := children_placeAll (ref + 1) ref path 0 children n hn child hc
      omega

theorem children_placeAll (next parent : Nat) (path : List Nat) (position : Nat) :
    ∀ nodes : List ViewNode, ∀ n ∈ placeAll next parent path position nodes,
      ∀ child ∈ n.children, child < next + sizeAll nodes
  | [] => by simp [placeAll]
  | node :: rest => by
    intro n hn child hc
    rw [placeAll, List.mem_append] at hn
    rw [sizeAll]
    rcases hn with hn | hn
    · have := children_place next (some parent) (path ++ [position]) node n hn child hc
      omega
    · have := children_placeAll (next + node.size) parent path (position + 1) rest n hn child hc
      omega

end

theorem le_of_mem_childRefs {next child : Nat} {nodes : List ViewNode}
    (h : child ∈ childRefs next nodes) : next ≤ child := by
  induction nodes generalizing next with
  | nil => cases h
  | cons node rest ih =>
    rw [childRefs, List.mem_cons] at h
    rcases h with rfl | h
    · exact Nat.le_refl _
    · exact Nat.le_trans (Nat.le_add_right _ _) (ih h)

theorem size_pos (node : ViewNode) : 0 < node.size := by
  cases node
  rw [size]
  omega

theorem pairwise_childRefs (next : Nat) (nodes : List ViewNode) :
    (childRefs next nodes).Pairwise (· < ·) := by
  induction nodes generalizing next with
  | nil => exact List.Pairwise.nil
  | cons node rest ih =>
    refine List.pairwise_cons.2 ⟨fun child hc => ?_, ih _⟩
    have hle := le_of_mem_childRefs hc
    have hpos := node.size_pos
    omega

theorem length_childRefs (next : Nat) (nodes : List ViewNode) :
    (childRefs next nodes).length = nodes.length := by
  induction nodes generalizing next with
  | nil => rfl
  | cons node rest ih => rw [childRefs, List.length_cons, ih, List.length_cons]

theorem exists_placeAll_eq (next parent : Nat) (path : List Nat) (position : Nat)
    {nodes : List ViewNode} {k : Nat} {child : ViewNode} (h : nodes[k]? = some child) :
    ∃ before after, (childRefs next nodes)[k]? = some (next + before.length) ∧
      placeAll next parent path position nodes = before ++
        (child.place (next + before.length) (some parent) (path ++ [position + k]) ++ after) := by
  induction nodes generalizing next position k with
  | nil => cases h
  | cons node rest ih =>
    rw [placeAll, childRefs]
    cases k with
    | zero =>
      cases h
      exact ⟨[], _, rfl, rfl⟩
    | succ k =>
      obtain ⟨before, after, href, hplace⟩ := ih (next + node.size) (position + 1) h
      refine ⟨node.place next (some parent) (path ++ [position]) ++ before, after, ?_, ?_⟩
      · rw [List.getElem?_cons_succ, href, List.length_append, length_place, Nat.add_assoc]
      · rw [hplace, List.length_append, length_place, List.append_assoc, Nat.add_assoc,
          Nat.add_assoc, Nat.add_comm 1 k]

theorem exists_child_of_mem_placeAll {next parent : Nat} {path : List Nat} {position : Nat}
    {nodes : List ViewNode} {m : ArenaNode} (hm : m ∈ placeAll next parent path position nodes) :
    ∃ (k : Nat) (child : ViewNode) (ref : Nat), nodes[k]? = some child ∧
      (childRefs next nodes)[k]? = some ref ∧
      m ∈ child.place ref (some parent) (path ++ [position + k]) := by
  induction nodes generalizing next position with
  | nil => simp [placeAll] at hm
  | cons node rest ih =>
    rw [placeAll, List.mem_append] at hm
    rcases hm with hm | hm
    · exact ⟨0, node, next, rfl, rfl, hm⟩
    · obtain ⟨k, child, ref, hchild, href, hm⟩ := ih hm
      refine ⟨k + 1, child, ref, hchild, href, ?_⟩
      rwa [Nat.add_assoc, Nat.add_comm 1 k] at hm

theorem place_subset_placeAll (next parent : Nat) (path : List Nat) (position : Nat)
    {nodes : List ViewNode} {k ref : Nat} {child : ViewNode} (hchild : nodes[k]? = some child)
    (href : (childRefs next nodes)[k]? = some ref) :
    child.place ref (some parent) (path ++ [position + k]) ⊆
      placeAll next parent path position nodes := by
  obtain ⟨before, after, hstart, hblock⟩ := exists_placeAll_eq next parent path position hchild
  rw [href] at hstart
  cases hstart
  rw [hblock]
  exact List.subset_append_of_subset_right _ (List.subset_append_left _ _)

theorem follow_append (node : ViewNode) (path rest : List Nat) :
    node.follow (path ++ rest) = (node.follow path).bind fun last => last.follow rest := by
  induction path generalizing node with
  | nil => rw [List.nil_append, follow, Option.bind_some]
  | cons position path ih =>
    rw [List.cons_append, follow, follow, Option.bind_assoc]
    exact congrArg _ (funext fun child => ih child)

end ViewNode

namespace ArenaNode

structure ChildAt (n : ArenaNode) (k : Nat) (m : ArenaNode) : Prop where
  ref : n.children[k]? = some m.ref
  node : n.node.children[k]? = some m.node
  parent : m.parent = some n.ref
  path : m.path = n.path ++ [k]

theorem eq_or_childAt (root : ViewNode) : ∀ {ref : Nat} {parent : Option Nat} {path : List Nat},
    ∀ m ∈ root.place ref parent path,
      m = ⟨ref, root, parent, ViewNode.childRefs (ref + 1) root.children, path⟩ ∨
        ∃ n ∈ root.place ref parent path, ∃ k, n.ChildAt k m := by
  induction root using ViewNode.induction with
  | h root ih =>
    intro ref parent path m hm
    rw [ViewNode.place_eq] at hm ⊢
    rcases List.mem_cons.1 hm with rfl | hm
    · exact Or.inl rfl
    · obtain ⟨k, child, cref, hchild, hcref, hm⟩ := ViewNode.exists_child_of_mem_placeAll hm
      have hsubset := ViewNode.place_subset_placeAll (ref + 1) ref path 0 hchild hcref
      rcases ih child (List.mem_of_getElem? hchild) m hm with rfl | ⟨n, hn, hlink⟩
      · refine Or.inr ⟨_, List.mem_cons_self, k, hcref, hchild, rfl, ?_⟩
        rw [Nat.zero_add]
      · exact Or.inr ⟨n, List.mem_cons_of_mem _ (hsubset hn), hlink⟩

/-- A node stands in a list with its whole tree laid out from its position on. -/
structure Sits (nodes : List ArenaNode) (n : ArenaNode) : Prop where
  children : n.children = ViewNode.childRefs (n.ref + 1) n.node.children
  block : ∃ before after, before.length = n.ref ∧
    nodes = before ++ (n.node.place n.ref n.parent n.path ++ after)

theorem sits_of_mem_place {nodes : List ArenaNode} (root : ViewNode) :
    ∀ {before after : List ArenaNode} {ref : Nat} {parent : Option Nat} {path : List Nat},
      before.length = ref →
        nodes = before ++ (root.place ref parent path ++ after) →
          ∀ n ∈ root.place ref parent path, Sits nodes n := by
  induction root using ViewNode.induction with
  | h root ih =>
    intro before after ref parent path href hnodes n hn
    rw [ViewNode.place_eq, List.mem_cons] at hn
    rcases hn with rfl | hn
    · exact ⟨rfl, before, after, href, hnodes⟩
    · obtain ⟨k, child, cref, hchild, hcref, hn⟩ := ViewNode.exists_child_of_mem_placeAll hn
      obtain ⟨left, right, hstart, hblock⟩ :=
        ViewNode.exists_placeAll_eq (ref + 1) ref path 0 hchild
      rw [hcref] at hstart
      cases hstart
      rw [ViewNode.place_eq, hblock, List.cons_append, List.append_assoc, List.append_assoc,
        List.append_cons, ← List.append_assoc] at hnodes
      refine ih child (List.mem_of_getElem? hchild) ?_ hnodes n hn
      rw [List.length_append, List.length_append, List.length_singleton, href]

namespace Sits

variable {nodes : List ArenaNode} {n : ArenaNode}

theorem drop_take (h : Sits nodes n) :
    (nodes.drop n.ref).take n.node.size = n.node.place n.ref n.parent n.path := by
  obtain ⟨before, after, hlength, hnodes⟩ := h.block
  rw [hnodes, List.drop_left' hlength, List.take_left' (ViewNode.length_place _ _ _ _)]

theorem mem_place (h : Sits nodes n) {j : Nat} {m : ArenaNode} (hm : nodes[j]? = some m)
    (hle : n.ref ≤ j) (hlt : j < n.ref + n.node.size) :
    m ∈ n.node.place n.ref n.parent n.path := by
  rw [← h.drop_take]
  refine List.mem_of_getElem? (i := j - n.ref) ?_
  rw [List.getElem?_take_of_lt (by omega), List.getElem?_drop, Nat.add_sub_cancel' hle, hm]

theorem exists_childAt (h : Sits nodes n) {k : Nat} {child : ViewNode}
    (hk : n.node.children[k]? = some child) :
    ∃ m, nodes[m.ref]? = some m ∧ m.node = child ∧ n.ChildAt k m := by
  obtain ⟨before, after, hlength, hnodes⟩ := h.block
  obtain ⟨left, right, href, hblock⟩ :=
    ViewNode.exists_placeAll_eq (n.ref + 1) n.ref n.path 0 hk
  rw [Nat.zero_add] at hblock
  let m : ArenaNode := ⟨n.ref + 1 + left.length, child, some n.ref,
    ViewNode.childRefs (n.ref + 1 + left.length + 1) child.children, n.path ++ [k]⟩
  have hm : nodes[n.ref + 1 + left.length]? = some m := by
    rw [ViewNode.place_eq, hblock, ViewNode.place_eq] at hnodes
    have hindex : n.ref + 1 + left.length = before.length + (left.length + 1) := by omega
    rw [hnodes, hindex, List.getElem?_append_right (Nat.le_add_right _ _), Nat.add_sub_cancel_left,
      List.cons_append, List.getElem?_cons_succ, List.append_assoc,
      List.getElem?_append_right (Nat.le_refl _), Nat.sub_self, ← hindex]
    rfl
  exact ⟨m, hm, rfl, by rw [h.children, href], hk, rfl, rfl⟩

end Sits

def Descends (nodes : List ArenaNode) : Nat → Nat → Prop :=
  Relation.ReflTransGen fun i j => ∃ m, nodes[j]? = some m ∧ m.parent = some i

end ArenaNode

theorem mapM_eq_some {α β : Type} {f : α → Option β} {as : List α} {bs : List β}
    (h : as.map f = bs.map some) : as.mapM f = some bs := by
  induction as generalizing bs with
  | nil =>
    rw [List.map_nil, eq_comm, List.map_eq_nil_iff] at h
    rw [h]
    rfl
  | cons a as ih =>
    cases bs with
    | nil => cases h
    | cons b bs =>
      obtain ⟨ha, has⟩ := List.cons.inj h
      rw [List.mapM_cons, ha, ih has]
      rfl

namespace ViewNode

theorem mk_fields (node : ViewNode) : ⟨node.kind, node.props, node.children, node.text⟩ = node := by
  cases node
  rfl

theorem ofArena_eq {nodes : List ArenaNode}
    (h : ∀ (i : Nat) (n : ArenaNode), nodes[i]? = some n → (∀ c ∈ n.children, i < c) ∧
      n.children.map (fun c => nodes[c]?.map ArenaNode.node) = n.node.children.map some)
    {i : Nat} {n : ArenaNode} (hn : nodes[i]? = some n) : ofArena nodes i = some n.node := by
  fun_induction ofArena nodes i generalizing n with
  | case1 i hi ih =>
    obtain rfl : nodes[i] = n := by rwa [List.getElem?_eq_getElem hi, Option.some.injEq] at hn
    obtain ⟨hlater, hchildren⟩ := h i nodes[i] hn
    -- Positions of children come later, so the recursion reaches them.
    have hmap : nodes[i].children.map (fun c => if i < c then ofArena nodes c else none) =
        nodes[i].node.children.map some := by
      rw [← hchildren]
      refine List.map_congr_left fun c hc => ?_
      have hmem := List.mem_map_of_mem (f := fun c => nodes[c]?.map ArenaNode.node) hc
      rw [hchildren] at hmem
      obtain ⟨child, -, hchild⟩ := List.mem_map.1 hmem
      obtain ⟨m, hm, -⟩ := Option.map_eq_some_iff.1 hchild.symm
      rw [if_pos (hlater c hc), ih c (hlater c hc) hm, hm, Option.map_some]
    rw [mapM_eq_some hmap, Option.map_some]
    exact congrArg some (mk_fields nodes[i].node)
  | case2 i hi =>
    rw [List.getElem?_eq_none (Nat.le_of_not_lt hi)] at hn
    cases hn

/-- A list of nodes lays out a tree in pre-order and loses nothing of it. -/
structure LaidOut (root : ViewNode) (nodes : List ArenaNode) : Prop where
  pushed : root.push none [] [] = nodes
  order : nodes.map ArenaNode.node = root.preorder
  ref : ∀ (i : Nat) (n : ArenaNode), nodes[i]? = some n → n.ref = i
  block : ∀ (i : Nat) (n : ArenaNode), nodes[i]? = some n →
    ((nodes.drop i).take n.node.size).map ArenaNode.node = n.node.preorder
  descends : ∀ (i : Nat) (n : ArenaNode), nodes[i]? = some n → ∀ j,
    ArenaNode.Descends nodes i j ↔ i ≤ j ∧ j < i + n.node.size
  first : ∀ (i : Nat) (n : ArenaNode), nodes[i]? = some n → (n.parent = none ↔ i = 0)
  parent : ∀ (i : Nat) (n : ArenaNode) (p : Nat), nodes[i]? = some n → n.parent = some p → p < i
  child : ∀ (p : Nat) (n : ArenaNode), nodes[p]? = some n → ∀ c,
    c ∈ n.children ↔ ∃ m, nodes[c]? = some m ∧ m.parent = some p
  ascending : ∀ (p : Nat) (n : ArenaNode), nodes[p]? = some n → n.children.Pairwise (· < ·)
  children : ∀ (p : Nat) (n : ArenaNode), nodes[p]? = some n →
    n.children.map (fun c => nodes[c]?.map ArenaNode.node) = n.node.children.map some
  path : ∀ (i : Nat) (n : ArenaNode), nodes[i]? = some n → root.follow n.path = some n.node
  regrown : ofArena nodes 0 = some root

section Arena

variable {root : ViewNode} {i : Nat} {n : ArenaNode}

theorem sits_of_getElem? (h : (arena (some root))[i]? = some n) :
    ArenaNode.Sits (arena (some root)) n := by
  have hwhole : arena (some root) = [] ++ (root.place 0 none [] ++ []) := (List.append_nil _).symm
  exact ArenaNode.sits_of_mem_place root rfl hwhole n (List.mem_of_getElem? h)

theorem first_or_childAt (h : (arena (some root))[i]? = some n) :
    (i = 0 ∧ n.parent = none ∧ n.path = [] ∧ n.node = root) ∨
      ∃ p m k, (arena (some root))[p]? = some m ∧ p < i ∧ m.ChildAt k n := by
  have href := ref_eq_of_getElem? h
  rcases ArenaNode.eq_or_childAt root n (List.mem_of_getElem? h) with rfl | ⟨m, hm, k, hlink⟩
  · exact Or.inl ⟨href.symm, rfl, rfl, rfl⟩
  · obtain ⟨p, hp⟩ : ∃ p, (arena (some root))[p]? = some m := List.mem_iff_getElem?.1 hm
    have hsits := sits_of_getElem? hp
    have hlater : m.ref + 1 ≤ n.ref := by
      apply le_of_mem_childRefs
      rw [← hsits.children]
      exact List.mem_of_getElem? hlink.ref
    rw [ref_eq_of_getElem? hp, href] at hlater
    exact Or.inr ⟨p, m, k, hp, hlater, hlink⟩

theorem childAt_of_parent (h : (arena (some root))[i]? = some n) {p : Nat}
    (hp : n.parent = some p) :
    p < i ∧ ∃ m k, (arena (some root))[p]? = some m ∧ m.ChildAt k n := by
  rcases first_or_childAt h with ⟨-, hnone, -⟩ | ⟨q, m, k, hq, hlt, hlink⟩
  · rw [hnone] at hp
    cases hp
  · obtain rfl : q = p := by
      rw [← ref_eq_of_getElem? hq]
      exact Option.some.inj (hlink.parent.symm.trans hp)
    exact ⟨hlt, m, k, hq, hlink⟩

theorem mem_children_iff {p : Nat} (h : (arena (some root))[p]? = some n) (c : Nat) :
    c ∈ n.children ↔ ∃ m, (arena (some root))[c]? = some m ∧ m.parent = some p := by
  have hsits := sits_of_getElem? h
  constructor
  · intro hc
    obtain ⟨k, hk⟩ := List.mem_iff_getElem?.1 hc
    have hlt : k < n.node.children.length := by
      rw [← length_childRefs (n.ref + 1), ← hsits.children]
      exact (List.getElem?_eq_some_iff.1 hk).1
    obtain ⟨m, hm, -, hlink⟩ := hsits.exists_childAt (List.getElem?_eq_getElem hlt)
    obtain rfl : m.ref = c := Option.some.inj (hlink.ref.symm.trans hk)
    exact ⟨m, hm, by rw [hlink.parent, ref_eq_of_getElem? h]⟩
  · rintro ⟨m, hm, hparent⟩
    obtain ⟨-, other, k, hp, hlink⟩ := childAt_of_parent hm hparent
    rw [h] at hp
    cases hp
    rw [← ref_eq_of_getElem? hm]
    exact List.mem_of_getElem? hlink.ref

theorem map_children (h : (arena (some root))[i]? = some n) :
    n.children.map (fun c => (arena (some root))[c]?.map ArenaNode.node) =
      n.node.children.map some := by
  have hsits := sits_of_getElem? h
  have hlength : n.children.length = n.node.children.length := by
    rw [hsits.children, length_childRefs]
  refine List.ext_getElem? fun k => ?_
  rw [List.getElem?_map, List.getElem?_map]
  cases hk : n.node.children[k]? with
  | none =>
    rw [List.getElem?_eq_none_iff, ← hlength, ← List.getElem?_eq_none_iff] at hk
    rw [hk]
    rfl
  | some child =>
    obtain ⟨m, hm, rfl, hlink⟩ := hsits.exists_childAt hk
    rw [hlink.ref, Option.map_some, Option.map_some, hm, Option.map_some]

theorem follow_path (h : (arena (some root))[i]? = some n) : root.follow n.path = some n.node := by
  induction i using Nat.strongRecOn generalizing n with
  | ind i ih =>
    rcases first_or_childAt h with ⟨-, -, hpath, rfl⟩ | ⟨p, m, k, hp, hlt, hlink⟩
    · rw [hpath, follow]
    · rw [hlink.path, follow_append, ih p hlt hp, Option.bind_some, follow, hlink.node,
        Option.bind_some, follow]

theorem descends_iff (h : (arena (some root))[i]? = some n) (j : Nat) :
    ArenaNode.Descends (arena (some root)) i j ↔ i ≤ j ∧ j < i + n.node.size := by
  have hsits := sits_of_getElem? h
  have href := ref_eq_of_getElem? h
  have hpos := n.node.size_pos
  constructor
  · intro hd
    -- Down the links: a child stays in the block that its parent is in.
    induction hd with
    | refl => omega
    | @tail a b _ hlink ih =>
      obtain ⟨m, hm, hparent⟩ := hlink
      obtain ⟨hlt, p, k, hp, hchild⟩ := childAt_of_parent hm hparent
      have hmem := hsits.mem_place hp (by omega) (by omega)
      have hbound := children_place _ _ _ n.node p hmem m.ref (List.mem_of_getElem? hchild.ref)
      rw [ref_eq_of_getElem? hm] at hbound
      omega
  · rintro ⟨hle, hlt⟩
    -- Up the links: the parent of a node comes before it.
    induction j using Nat.strongRecOn with
    | ind j ih =>
      have hlength := congrArg List.length hsits.drop_take
      rw [length_place, List.length_take, List.length_drop] at hlength
      have hm := List.getElem?_eq_getElem (show j < (arena (some root)).length by omega)
      have hmem := hsits.mem_place hm (by omega) (by omega)
      rcases ArenaNode.eq_or_childAt n.node _ hmem with heq | ⟨p, hp, k, hlink⟩
      · have hij : j = i := by rw [← ref_eq_of_getElem? hm, heq, href]
        rw [hij]
        exact .refl
      · -- the parent lies in the block as well, and before its child
        have hrange := List.mem_map_of_mem (f := ArenaNode.ref) hp
        rw [refs_place, List.mem_range'_1] at hrange
        obtain ⟨hbefore, -⟩ := childAt_of_parent hm hlink.parent
        exact (ih p.ref hbefore (by omega) (by omega)).tail ⟨_, hm, hlink.parent⟩

end Arena

/-- The layout of a tree, which is what adding its nodes to one list gives, loses nothing of it: positions
follow the pre-order, each tree fills a block of positions and holds all that descends from its root, the
links to parents and children agree and keep the order of the children, paths lead to their nodes, and
following the children from the first position on gives the tree again. -/
theorem arena_laidOut (root : ViewNode) : root.LaidOut (arena (some root)) where
  pushed := by rw [push_eq, List.nil_append, List.length_nil, arena]
  order := node_place 0 none [] root
  ref _ _ h := ref_eq_of_getElem? h
  block i n h := by
    have hblock := (sits_of_getElem? h).drop_take
    rw [ref_eq_of_getElem? h] at hblock
    rw [hblock, node_place]
  descends _ _ h := descends_iff h
  first i n h := by
    constructor
    · intro hnone
      rcases first_or_childAt h with ⟨hfirst, -⟩ | ⟨p, m, k, -, -, hlink⟩
      · exact hfirst
      · rw [hlink.parent] at hnone
        cases hnone
    · rintro rfl
      rcases first_or_childAt h with ⟨-, hnone, -⟩ | ⟨p, m, k, -, hlt, -⟩
      · exact hnone
      · exact absurd hlt (Nat.not_lt_zero p)
  parent _ _ _ h hp := (childAt_of_parent h hp).1
  child _ _ h := mem_children_iff h
  ascending p n h := by
    rw [(sits_of_getElem? h).children]
    exact pairwise_childRefs _ _
  children _ _ h := map_children h
  path _ _ h := follow_path h
  regrown := by
    have hfirst : (arena (some root))[0]? =
        some ⟨0, root, none, childRefs 1 root.children, []⟩ := by
      rw [arena, place_eq, List.getElem?_cons_zero]
    refine ofArena_eq (fun i n h => ⟨fun c hc => ?_, map_children h⟩) hfirst
    obtain ⟨m, hm, hparent⟩ := (mem_children_iff h c).1 hc
    exact (childAt_of_parent hm hparent).1

end ViewNode

end ReactiveView
