import ReactiveView.Application.Load
import ReactiveView.Sandbox.Meter
import ReactiveView.View.Resolve

namespace ReactiveView

/-- Report on a pass over a view: the facets visited, the account afterwards, and the outcome. -/
structure Pass (α : Type) where
  visits : List Visit
  account : Account
  outcome : Except Failure α

structure Rendering where
  tree : Tree
  patches : List Patch

namespace View

def patchesOf (n : ArenaNode) (values : List (Facet × FacetValue)) : List Patch :=
  values.map fun entry => Patch.ofFacet n.ref entry.1 entry.2

def extend (visits : List Visit) (node : Node) (patches : List Patch)
    (rest : Pass (List Node × List Patch)) : Pass (List Node × List Patch) :=
  ⟨visits ++ rest.visits, rest.account,
    rest.outcome.map fun later => (node :: later.1, patches ++ later.2)⟩

def buildNodes (state : State) : List ArenaNode → Account → Pass (List Node × List Patch)
  | [], account => ⟨[], account, .ok ([], [])⟩
  | n :: rest, account =>
    match n.resolveAll state n.facets with
    | (visits, .error failure) => ⟨visits, account, .error failure⟩
    | (visits, .ok values) =>
      let node := (Node.shell n).writeAll values
      match account.allocate node.size "view materialization" with
      | .error cause => ⟨visits, account, .error (.sandbox cause)⟩
      | .ok next => extend visits node (patchesOf n values) (buildNodes state rest next)

def rendering (result : List Node × List Patch) : Rendering := ⟨⟨result.1⟩, result.2⟩

def materialize (app : Application) (state : State) (account : Account) : Pass Rendering :=
  let pass := buildNodes state app.nodes account
  ⟨pass.visits, pass.account, pass.outcome.map rendering⟩

def changes (before : Node) (values : List (Facet × FacetValue)) : List (Facet × FacetValue) :=
  values.filter fun entry => !(before.read entry.1).same entry.2

/-- Bring nodes up to date by resolving the wanted facets of each. A node that changes is charged
before the old one is released; all others are kept. -/
def updateNodes (state : State) (wanted : ArenaNode → List Facet) :
    List ArenaNode → List Node → Account → Pass (List Node × List Patch)
  | n :: rest, before :: others, account =>
    match n.resolveAll state (wanted n) with
    | (visits, .error failure) => ⟨visits, account, .error failure⟩
    | (visits, .ok values) =>
      let changed := changes before values
      if changed.isEmpty then
        extend visits before [] (updateNodes state wanted rest others account)
      else
        let after := before.writeAll changed
        match account.allocate after.size "view update" with
        | .error cause => ⟨visits, account, .error (.sandbox cause)⟩
        | .ok charged =>
          extend visits after (patchesOf n changed)
            (updateNodes state wanted rest others (charged.release before.size))
  | _, nodes, account => ⟨[], account, .ok (nodes, [])⟩

def reconcile (app : Application) (state : State) (previous : Option Tree) (dirty : List String)
    (account : Account) : Pass Rendering :=
  match previous with
  | none => materialize app state account
  | some tree =>
    let reads := app.index.readsOf dirty
    let pass := updateNodes state (Index.facetsAmong reads) app.nodes tree.nodes account
    ⟨pass.visits, pass.account, pass.outcome.map rendering⟩

end View

end ReactiveView
