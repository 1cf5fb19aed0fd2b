import ReactiveView.Session.Core

namespace ReactiveView

variable {σ : Type}

structure Limits where
  memory : Limit := .ofInt memoryLimitBytes
  flushDepth : Limit := .ofInt maxFlushDepth

/-- Report on the start of an application: the lines logged and the state of the renderer are there
whether it succeeded or not. -/
structure Launch (σ : Type) where
  outcome : Except Failure (World σ)
  log : List Log.Line
  sink : σ

namespace Launch

def startedLine (app : Application) : Log.Line :=
  ⟨.debug, ["Application \"" ++ app.name ++ "\" v" ++ app.version.numeral ++ " started with " ++
    toString app.nodes.length ++ " nodes"]⟩

def failureLines (app : Application) (failure : Failure) : List Log.Line :=
  match failure with
  | .sandbox cause =>
    [⟨.error, ["Application \"" ++ app.name ++ "\" failed to start:", cause.message]⟩]
  | _ => []

def refuse (app : Application) (failure : Failure) (log : List Log.Line) (sink : σ) : Launch σ :=
  ⟨.error failure, log ++ failureLines app failure, sink⟩

def start (app : Application) (limits : Limits) (r : Renderer σ) (sink : σ) : Launch σ :=
  match Store.create app.initialState (some { limit := limits.memory }) with
  | .error cause => refuse app (.sandbox cause) [] sink
  | .ok store =>
    let pass := View.materialize app store.state store.account
    let lines := pass.visits.filterMap Visit.brief?
    match pass.outcome with
    | .error failure => refuse app failure lines sink
    | .ok rendering =>
      match r.mount rendering.tree rendering.patches sink with
      | (.error failure, mounted) => refuse app failure lines mounted
      | (.ok (), mounted) =>
        let log := lines ++ [startedLine app]
        let core : Core σ :=
          ⟨app, { store with account := pass.account }, rendering.tree, [], none, log, mounted⟩
        ⟨.ok ({ limit := limits.flushDepth }, core), log, mounted⟩

end Launch

end ReactiveView
