import ReactiveView.Proofs.Names

namespace ReactiveView

/-- An expression names declared variables only, and every call in it, at any depth, is one of a function
that takes so many arguments. -/
inductive Expr.WellFormed (declared : List String) : Expr → Prop where
  | literal (value : Value) : WellFormed declared (.literal value)
  | ident {name : String} (h : name ∈ declared) : WellFormed declared (.ident name)
  | unary {op : UnaryOp} {operand : Expr} (h : WellFormed declared operand) :
      WellFormed declared (.unary op operand)
  | binary {op : BinaryOp} {left right : Expr} (hleft : WellFormed declared left)
      (hright : WellFormed declared right) : WellFormed declared (.binary op left right)
  | call {b : Builtin} {args : List Expr} (hleast : b.minArgs ≤ args.length)
      (hmost : args.length ≤ b.maxArgs) (hargs : ∀ e ∈ args, WellFormed declared e) :
      WellFormed declared (.call b.name args)

/-- The value of a property suits its name. Handlers name actions, a binding names a variable, visibility
is no color, and outside handlers every expression is well formed and every bare name a variable. -/
structure PropValue.Suits (declared actions : List String) (name : String) (value : PropValue) :
    Prop where
  handler : "on_".toList <+: name.toList → ∃ action ∈ actions, value = .ident action
  binding : name = "bind" → ∃ x, value = .ident x
  visible : name = "visible" → ∀ c, value ≠ .color c
  expr : ¬"on_".toList <+: name.toList → ∀ e, value = .expr e → e.WellFormed declared
  ident : ¬"on_".toList <+: name.toList → ∀ x, value = .ident x → x ∈ declared

namespace ViewNode

structure WellFormed (declared actions : List String) (node : ViewNode) : Prop where
  text : ∀ spans, node.text = some spans → ∀ name, .var name ∈ spans → name ∈ declared
  props : ∀ name value, (name, value) ∈ node.props.entries → value.Suits declared actions name

inductive Within : ViewNode → ViewNode → Prop where
  | top (node : ViewNode) : Within node node
  | under {node child root : ViewNode} (hchild : child ∈ root.children) (h : Within node child) :
      Within node root

end ViewNode

/-- A document has a name and a positive whole version, declares no variable and no action twice,
assigns declared variables, and its expressions and all nodes of its view are well formed. -/
structure Program.WellFormed (p : Program) : Prop where
  app : ∃ c ∈ p.app.toList, Text.isBlank c = false
  version : ∃ n, p.version.toInt? = some n ∧ 1 ≤ n
  state : p.stateNames.Nodup
  actions : p.actionNames.Nodup
  mutations : ∀ a ∈ p.actions, ∀ m ∈ a.mutations,
    m.target ∈ p.stateNames ∧ m.expr.WellFormed p.stateNames
  view : ∀ root, p.view = some root → ∀ node : ViewNode, node.Within root →
    node.WellFormed p.stateNames p.actionNames

theorem faultIf_eq_nil_iff {condition : Bool} {fault : LoadError} :
    faultIf condition fault = [] ↔ condition = false := by
  cases condition <;> simp [faultIf]

theorem faultIf_contains_eq_nil_iff {names : List String} {x : String} {fault : LoadError} :
    faultIf (!names.contains x) fault = [] ↔ x ∈ names := by simp [faultIf_eq_nil_iff]

theorem Builtin.ofName?_eq_some_iff {name : String} {b : Builtin} :
    ofName? name = some b ↔ b.name = name := by
  constructor
  · exact name_of_ofName?
  · rintro rfl
    cases b <;> rfl

theorem CallSite.faults_eq_nil_iff {site : CallSite} {place : Place} :
    site.faults place = [] ↔ site.Supplied := by
  refine ⟨supplied_of_faults_nil, ?_⟩
  rintro ⟨b, hb, hleast, hmost⟩
  simp [faults, hb, faultIf_eq_nil_iff, hleast, hmost]

namespace Expr

theorem faults_eq_nil_iff {e : Expr} {declared : List String} {place : Place} :
    e.faults declared place = [] ↔ e.Closed declared := by
  refine ⟨closed_of_faults_nil, fun h => List.append_eq_nil_iff.2 ⟨?_, ?_⟩⟩
  · exact List.flatMap_eq_nil_iff.2 fun x hx => faultIf_contains_eq_nil_iff.2 (h.reads x hx)
  · exact List.flatMap_eq_nil_iff.2 fun site hs => CallSite.faults_eq_nil_iff.2 (h.supplied site hs)

mutual

theorem wellFormed_iff_closed (declared : List String) : ∀ e : Expr,
    e.WellFormed declared ↔ e.Closed declared
  | .literal value => by
    refine ⟨fun _ => ⟨?_, ?_⟩, fun _ => .literal value⟩
    · simp [reads]
    · simp [calls]
  | .ident name => by
    refine ⟨?_, fun h => .ident (h.reads name (by simp [reads]))⟩
    rintro (_ | h)
    exact ⟨by simpa [reads] using h, by simp [calls]⟩
  | .unary op operand => by
    have ih := wellFormed_iff_closed declared operand
    constructor
    · rintro (_ | _ | h)
      obtain ⟨hreads, hcalls⟩ := ih.1 h
      exact ⟨by rwa [reads], by rwa [calls]⟩
    · rintro ⟨hreads, hcalls⟩
      rw [reads] at hreads
      rw [calls] at hcalls
      exact .unary (ih.2 ⟨hreads, hcalls⟩)
  | .binary op left right => by
    have ihl := wellFormed_iff_closed declared left
    have ihr := wellFormed_iff_closed declared right
    constructor
    · rintro (_ | _ | _ | ⟨hl, hr⟩)
      obtain ⟨hreads, hcalls⟩ := ihl.1 hl
      obtain ⟨hreads', hcalls'⟩ := ihr.1 hr
      exact ⟨by rw [reads]; exact List.forall_mem_append.2 ⟨hreads, hreads'⟩,
        by rw [calls]; exact List.forall_mem_append.2 ⟨hcalls, hcalls'⟩⟩
    · rintro ⟨hreads, hcalls⟩
      rw [reads] at hreads
      rw [calls] at hcalls
      obtain ⟨hreads, hreads'⟩ := List.forall_mem_append.1 hreads
      obtain ⟨hcalls, hcalls'⟩ := List.forall_mem_append.1 hcalls
      exact .binary (ihl.2 ⟨hreads, hcalls⟩) (ihr.2 ⟨hreads', hcalls'⟩)
  | .call callee args => by
    have ih := forall_wellFormed_iff declared args
    constructor
    · rintro (_ | _ | _ | _ | ⟨hleast, hmost, hargs⟩)
      rename_i b
      obtain ⟨hreads, hcalls⟩ := ih.1 hargs
      refine ⟨by rwa [reads], ?_⟩
      rw [calls]
      exact List.forall_mem_cons.2
        ⟨⟨b, Builtin.ofName?_eq_some_iff.2 rfl, hleast, hmost⟩, hcalls⟩
    · rintro ⟨hreads, hcalls⟩
      rw [reads] at hreads
      rw [calls] at hcalls
      obtain ⟨⟨b, hb, hleast, hmost⟩, hrest⟩ := List.forall_mem_cons.1 hcalls
      obtain rfl := Builtin.ofName?_eq_some_iff.1 hb
      exact .call hleast hmost (ih.2 ⟨hreads, hrest⟩)

theorem forall_wellFormed_iff (declared : List String) : ∀ es : List Expr,
    (∀ e ∈ es, e.WellFormed declared) ↔
      (∀ x ∈ readsAll es, x ∈ declared) ∧ ∀ site ∈ callsAll es, site.Supplied
  | [] => by simp [readsAll, callsAll]
  | e :: es => by
    have ihe := wellFormed_iff_closed declared e
    have ihes := forall_wellFormed_iff declared es
    rw [List.forall_mem_cons, ihe, ihes, readsAll, callsAll, List.forall_mem_append,
      List.forall_mem_append]
    constructor
    · rintro ⟨⟨hreads, hcalls⟩, hreads', hcalls'⟩
      exact ⟨⟨hreads, hreads'⟩, hcalls, hcalls'⟩
    · rintro ⟨⟨hreads, hreads'⟩, hcalls, hcalls'⟩
      exact ⟨⟨hreads, hcalls⟩, hreads', hcalls'⟩

end

theorem faults_eq_nil_iff_wellFormed {e : Expr} {declared : List String} {place : Place} :
    e.faults declared place = [] ↔ e.WellFormed declared :=
  faults_eq_nil_iff.trans (wellFormed_iff_closed declared e).symm

end Expr

theorem repeatFaults_eq_nil_iff {fault : String → LoadError} {seen names : List String} :
    repeatFaults fault seen names = [] ↔ names.Nodup ∧ ∀ x ∈ names, x ∉ seen := by
  induction names generalizing seen with
  | nil => simp [repeatFaults]
  | cons name rest ih =>
    rw [repeatFaults, List.append_eq_nil_iff, faultIf_eq_nil_iff, ih, List.nodup_cons]
    constructor
    · rintro ⟨hname, hnodup, hrest⟩
      refine ⟨⟨fun hmem => hrest name hmem List.mem_cons_self, hnodup⟩, ?_⟩
      refine List.forall_mem_cons.2 ⟨by simpa using hname, fun x hx hseen => ?_⟩
      exact hrest x hx (List.mem_cons_of_mem _ hseen)
    · rintro ⟨⟨hname, hnodup⟩, hseen⟩
      obtain ⟨hfirst, hrest⟩ := List.forall_mem_cons.1 hseen
      refine ⟨by simpa using hfirst, hnodup, fun x hx hmem => ?_⟩
      rcases List.mem_cons.1 hmem with rfl | hmem
      · exact hname hx
      · exact hrest x hx hmem

theorem actionFaults_eq_nil_iff {declared seen : List String} {actions : List Action} :
    actionFaults declared seen actions = [] ↔
      repeatFaults .duplicateAction seen (actions.map Action.name) = [] ∧
        ∀ a ∈ actions, ∀ m ∈ a.mutations, m.target ∈ declared ∧ m.expr.WellFormed declared := by
  induction actions generalizing seen with
  | nil => simp [actionFaults, repeatFaults]
  | cons a rest ih =>
    have hmutation (m : Mutation) : m.faults declared a.name = [] ↔
        m.target ∈ declared ∧ m.expr.WellFormed declared := by
      rw [Mutation.faults, List.append_eq_nil_iff, faultIf_contains_eq_nil_iff,
        Expr.faults_eq_nil_iff_wellFormed]
    simp only [actionFaults, List.map_cons, repeatFaults, List.append_eq_nil_iff,
      List.flatMap_eq_nil_iff, hmutation, ih, List.forall_mem_cons]
    exact ⟨fun ⟨⟨hname, hfirst⟩, hnames, hrest⟩ => ⟨⟨hname, hnames⟩, hfirst, hrest⟩,
      fun ⟨⟨hname, hnames⟩, hfirst, hrest⟩ => ⟨⟨hname, hfirst⟩, hnames, hrest⟩⟩

theorem isHandlerProp_iff {name : String} :
    isHandlerProp name = true ↔ "on_".toList <+: name.toList := List.isPrefixOf_iff_prefix

theorem facetOfProp_isSome (name : String) :
    (facetOfProp? name).isSome = !isHandlerProp name := by
  have hv : isHandlerProp visibleProp = false := by decide
  have hb : isHandlerProp bindProp = false := by decide
  rw [facetOfProp?]
  split
  · rename_i h
    rw [h, hv]
    rfl
  · rename_i hnv
    split
    · rename_i h
      rw [h, hb]
      rfl
    · rename_i hnb
      cases hh : isHandlerProp name <;> simp [isPlainProp, hnv, hnb, hh]

theorem ArenaNode.names_propReads (n : ArenaNode) (name : String) (value : PropValue) :
    (n.propReads (name, value)).map Read.name = if isHandlerProp name then [] else value.reads := by
  have hfacet := facetOfProp_isSome name
  rw [propReads]
  cases hf : facetOfProp? name with
  | none =>
    rw [hf] at hfacet
    rw [if_pos (by simpa using hfacet)]
    rfl
  | some entry =>
    rw [hf] at hfacet
    rw [if_neg (by simpa using hfacet)]
    simp [Function.comp_def]

section Nodes

variable {declared actions : List String} {n : ArenaNode}

theorem readFaults_eq_nil_iff : readFaults declared n = [] ↔
    (∀ x ∈ (n.node.text.getD []).flatMap Span.reads, x ∈ declared) ∧
      ∀ entry ∈ n.node.props.entries, isHandlerProp entry.1 = false →
        ∀ x ∈ entry.2.reads, x ∈ declared := by
  have hnames : readFaults declared n = [] ↔ ∀ x ∈ n.reads.map Read.name, x ∈ declared := by
    simp [readFaults, List.flatMap_eq_nil_iff, faultIf_eq_nil_iff]
  have htext : n.textReads.map Read.name = (n.node.text.getD []).flatMap Span.reads := by
    simp [ArenaNode.textReads, Function.comp_def]
  rw [hnames, ArenaNode.reads, List.map_append, List.forall_mem_append, htext, List.map_flatMap]
  refine and_congr_right fun _ => ?_
  simp only [List.forall_mem_flatMap]
  refine forall₂_congr fun entry _ => ?_
  rw [ArenaNode.names_propReads n entry.1 entry.2]
  cases isHandlerProp entry.1 <;> simp

theorem propFaults_eq_nil_iff {name : String} {value : PropValue} :
    (propFaults declared actions n (name, value) = [] ∧
        (isHandlerProp name = false → ∀ x ∈ value.reads, x ∈ declared)) ↔
      value.Suits declared actions name := by
  rw [propFaults]
  cases hh : isHandlerProp name with
  | true =>
    have hon := isHandlerProp_iff.1 hh
    constructor
    · rintro ⟨hfaults, -⟩
      cases value with
      | ident action =>
        have hmem : action ∈ actions := faultIf_contains_eq_nil_iff.1 hfaults
        exact ⟨fun _ => ⟨action, hmem, rfl⟩, fun _ => ⟨action, rfl⟩, fun _ c => by simp,
          fun hno => absurd hon hno, fun hno => absurd hon hno⟩
      | literal v | color c | expr e => cases hfaults
    · rintro ⟨hhandler, -, -, -, -⟩
      obtain ⟨action, hmem, rfl⟩ := hhandler hon
      exact ⟨faultIf_contains_eq_nil_iff.2 hmem, by simp⟩
  | false =>
    have hoff : ¬"on_".toList <+: name.toList := fun hon => by simp [isHandlerProp_iff.2 hon] at hh
    simp only [Bool.false_eq_true, ↓reduceIte, List.append_eq_nil_iff, faultIf_eq_nil_iff,
      forall_const]
    constructor
    · rintro ⟨⟨⟨hbind, hvisible⟩, hexpr⟩, hreads⟩
      refine ⟨fun hon => absurd hon hoff, ?_, ?_, ?_, ?_⟩
      · rintro rfl
        cases value with
        | ident x => exact ⟨x, rfl⟩
        | literal v | color c | expr e => cases hbind
      · rintro rfl c rfl
        cases hvisible
      · rintro - e rfl
        exact Expr.faults_eq_nil_iff_wellFormed.1 hexpr
      · rintro - x rfl
        exact hreads x List.mem_cons_self
    · rintro ⟨-, hbind, hvisible, hexpr, hident⟩
      refine ⟨⟨⟨?_, ?_⟩, ?_⟩, ?_⟩
      · by_cases hname : name = bindProp
        · obtain ⟨x, rfl⟩ := hbind hname
          simp [PropValue.isIdent]
        · simp [hname]
      · by_cases hname : name = visibleProp
        · cases value with
          | color c => exact absurd rfl (hvisible hname c)
          | literal v | expr e | ident x => simp [PropValue.isColor]
        · simp [hname]
      · cases value with
        | expr e => exact Expr.faults_eq_nil_iff_wellFormed.2 (hexpr hoff e rfl)
        | literal v | color c | ident x => rfl
      · cases value with
        | expr e => exact ((Expr.wellFormed_iff_closed _ e).1 (hexpr hoff e rfl)).reads
        | ident x => simpa [PropValue.reads] using hident hoff x rfl
        | literal v | color c => simp [PropValue.reads]

theorem node_faults_eq_nil_iff :
    ((∀ entry ∈ n.node.props.entries, propFaults declared actions n entry = []) ∧
        readFaults declared n = []) ↔ n.node.WellFormed declared actions := by
  have htext : (∀ x ∈ (n.node.text.getD []).flatMap Span.reads, x ∈ declared) ↔
      ∀ spans, n.node.text = some spans → ∀ name, .var name ∈ spans → name ∈ declared := by
    cases n.node.text with
    | none => simp
    | some spans =>
      simp only [Option.getD_some, List.forall_mem_flatMap, Option.some.injEq, forall_eq']
      constructor
      · intro h name hmem
        exact h (.var name) hmem name List.mem_cons_self
      · intro h span hmem x hx
        cases span with
        | literal text => cases hx
        | var name =>
          obtain rfl := List.mem_singleton.1 hx
          exact h x hmem
  rw [readFaults_eq_nil_iff, htext]
  constructor
  · rintro ⟨hprops, hspans, hreads⟩
    exact ⟨hspans, fun name value hmem =>
      propFaults_eq_nil_iff.1 ⟨hprops (name, value) hmem, hreads (name, value) hmem⟩⟩
  · rintro ⟨hspans, hprops⟩
    have hentry (entry : String × PropValue) (hmem : entry ∈ n.node.props.entries) :=
      (propFaults_eq_nil_iff (n := n)).2 (hprops entry.1 entry.2 hmem)
    exact ⟨fun entry hmem => (hentry entry hmem).1, hspans, fun entry hmem => (hentry entry hmem).2⟩

end Nodes

namespace ViewNode

mutual

theorem mem_place (node : ViewNode) : ∀ (root : ViewNode) (ref : Nat) (parent : Option Nat)
    (path : List Nat), node ∈ (root.place ref parent path).map ArenaNode.node ↔ node.Within root
  | ⟨kind, props, children, text⟩, ref, parent, path => by
    have ih := mem_placeAll node children (ref + 1) ref path 0
    rw [place, List.map_cons, List.mem_cons, ih]
    constructor
    · rintro (rfl | ⟨child, hchild, hwithin⟩)
      · exact .top _
      · exact .under hchild hwithin
    · rintro (_ | ⟨hchild, hwithin⟩)
      · exact Or.inl rfl
      · exact Or.inr ⟨_, hchild, hwithin⟩

theorem mem_placeAll (node : ViewNode) : ∀ (nodes : List ViewNode) (next parent : Nat)
    (path : List Nat) (position : Nat),
    node ∈ (placeAll next parent path position nodes).map ArenaNode.node ↔
      ∃ child ∈ nodes, node.Within child
  | [], next, parent, path, position => by simp [placeAll]
  | child :: rest, next, parent, path, position => by
    have ihchild := mem_place node child next (some parent) (path ++ [position])
    have ihrest := mem_placeAll node rest (next + child.size) parent path (position + 1)
    rw [placeAll, List.map_append, List.mem_append, ihchild, ihrest]
    simp

end

end ViewNode

namespace Program

variable {p : Program}

theorem forall_nodes_iff {P : ViewNode → Prop} : (∀ n ∈ p.nodes, P n.node) ↔
    ∀ root, p.view = some root → ∀ node : ViewNode, node.Within root → P node := by
  have hmap : (∀ n ∈ p.nodes, P n.node) ↔ ∀ node ∈ p.nodes.map ArenaNode.node, P node :=
    List.forall_mem_map.symm
  rw [hmap, nodes]
  cases p.view with
  | none => simp [ViewNode.arena]
  | some root => simp only [ViewNode.arena, ViewNode.mem_place, Option.some.injEq, forall_eq']

theorem isBlankText_eq_false_iff {s : String} :
    Text.isBlankText s = false ↔ ∃ c ∈ s.toList, Text.isBlank c = false := by
  simp [Text.isBlankText]

theorem isVersion_iff {version : Binary64} :
    isVersion version = true ↔ ∃ n, version.toInt? = some n ∧ 1 ≤ n := by
  rw [isVersion]
  cases version.toInt? <;> simp

theorem faults_eq_nil_iff : p.faults = [] ↔ p.WellFormed := by
  have hprops : (p.nodes.flatMap fun n =>
      n.node.props.entries.flatMap (propFaults p.stateNames p.actionNames n)) = [] ↔
      ∀ n ∈ p.nodes, ∀ entry ∈ n.node.props.entries,
        propFaults p.stateNames p.actionNames n entry = [] := by
    simp only [List.flatMap_eq_nil_iff]
  have hview : (∀ n ∈ p.nodes, n.node.WellFormed p.stateNames p.actionNames) ↔
      (∀ n ∈ p.nodes, ∀ entry ∈ n.node.props.entries,
        propFaults p.stateNames p.actionNames n entry = []) ∧
      ∀ n ∈ p.nodes, readFaults p.stateNames n = [] := by
    simp only [← node_faults_eq_nil_iff, forall_and]
  simp only [faults, List.append_eq_nil_iff, faultIf_eq_nil_iff, hprops, List.flatMap_eq_nil_iff,
    isBlankText_eq_false_iff, Bool.not_eq_false', isVersion_iff, repeatFaults_eq_nil_iff,
    actionFaults_eq_nil_iff, List.not_mem_nil, not_false_eq_true, implies_true, and_true]
  constructor
  · rintro ⟨⟨⟨⟨⟨happ, hversion⟩, hstate⟩, hactions, hmutations⟩, hprops⟩, hreads⟩
    exact ⟨happ, hversion, hstate, hactions, hmutations,
      forall_nodes_iff.1 (hview.2 ⟨hprops, hreads⟩)⟩
  · rintro ⟨happ, hversion, hstate, hactions, hmutations, hnodes⟩
    obtain ⟨hprops, hreads⟩ := hview.1 (forall_nodes_iff.2 hnodes)
    exact ⟨⟨⟨⟨⟨happ, hversion⟩, hstate⟩, hactions, hmutations⟩, hprops⟩, hreads⟩

instance (p : Program) : Decidable p.WellFormed := decidable_of_iff (p.faults = []) faults_eq_nil_iff

example : counter.WellFormed := by decide +kernel

/-- A document loads as its application exactly if it is well formed, and any other document is
rejected with a load error. -/
theorem load_iff_wellFormed (p : Program) :
    (∀ app, p.load = .ok app ↔ p.WellFormed ∧ app = p.application) ∧
      (¬p.WellFormed ↔ ∃ fault : LoadError, p.load = .error fault) := by
  have hok (app : Application) : p.load = .ok app ↔ p.WellFormed ∧ app = p.application := by
    rw [load_eq_ok_iff, faults_eq_nil_iff, eq_comm (a := app)]
  refine ⟨hok, ?_⟩
  cases hload : p.load with
  | ok app =>
    obtain ⟨hp, -⟩ := (hok app).1 hload
    simp [hp]
  | error fault =>
    have hp : ¬p.WellFormed := fun hp => by
      have h := (hok p.application).2 ⟨hp, rfl⟩
      rw [hload] at h
      cases h
    simp [hp]

end Program

end ReactiveView
