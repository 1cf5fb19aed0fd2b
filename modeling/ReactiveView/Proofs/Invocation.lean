import ReactiveView.Proofs.Evaluation

namespace ReactiveView

structure Invocation where
  function : Builtin
  args : List Value

def Invocation.Fits (i : Invocation) : Prop :=
  i.function.minArgs ≤ i.args.length ∧ i.args.length ≤ i.function.maxArgs

abbrev Traced (α : Type) := List Invocation × Except Fault α

namespace Traced

variable {α β : Type}

def andThen (t : Traced α) (f : α → Traced β) : Traced β :=
  match t with
  | (made, .error fault) => (made, .error fault)
  | (made, .ok a) => (made ++ (f a).1, (f a).2)

theorem andThen_snd (t : Traced α) (f : α → Traced β) :
    (t.andThen f).2 = t.2 >>= fun a => (f a).2 := by
  obtain ⟨made, answer⟩ := t
  cases answer <;> rfl

theorem mem_andThen {t : Traced α} {f : α → Traced β} {i : Invocation}
    (h : i ∈ (t.andThen f).1) : i ∈ t.1 ∨ ∃ a, t.2 = .ok a ∧ i ∈ (f a).1 := by
  obtain ⟨made, answer⟩ := t
  cases answer with
  | error fault => exact Or.inl h
  | ok a => exact (List.mem_append.1 h).imp_right fun h => ⟨a, rfl, h⟩

end Traced

namespace Expr

mutual

/-- Evaluate an expression with a record of the calls that are made. -/
def trace (s : State) : Expr → Traced Value
  | .literal value => ([], .ok value)
  | .ident name => ([], lookup s name)
  | .unary op operand => (operand.trace s).andThen fun v => ([], applyUnary op v)
  | .binary op left right => (left.trace s).andThen fun v =>
    match decided? op v with
    | some answer => ([], answer)
    | none => (right.trace s).andThen fun w => ([], applyBinary op v w)
  | .call callee args =>
    match Builtin.ofName? callee with
    | none => ([], .error (.evaluation (.unknownFunction callee)))
    | some b => (traceAll s args).andThen fun vs => ([⟨b, vs⟩], b.apply vs)

def traceAll (s : State) : List Expr → Traced (List Value)
  | [] => ([], .ok [])
  | e :: es => (e.trace s).andThen fun v => (traceAll s es).andThen fun vs => ([], .ok (v :: vs))

end

mutual

theorem trace_snd (s : State) : ∀ e : Expr, (e.trace s).2 = e.evaluate s
  | .literal value => by rw [trace, evaluate]
  | .ident name => by rw [trace, evaluate]
  | .unary op operand => by rw [trace, evaluate, Traced.andThen_snd, trace_snd s operand]
  | .binary op left right => by
    rw [trace, evaluate, Traced.andThen_snd, trace_snd s left]
    congr 1
    funext v
    cases decided? op v with
    | some answer => rfl
    | none =>
      dsimp only
      rw [Traced.andThen_snd, trace_snd s right]
  | .call callee args => by
    rw [trace, evaluate]
    cases Builtin.ofName? callee with
    | none => rfl
    | some b =>
      dsimp only
      rw [Traced.andThen_snd, traceAll_snd s args]

theorem traceAll_snd (s : State) : ∀ es : List Expr, (traceAll s es).2 = evaluateAll s es
  | [] => by rw [traceAll, evaluateAll]
  | e :: es => by
    rw [traceAll, evaluateAll, Traced.andThen_snd, trace_snd s e]
    congr 1
    funext v
    rw [Traced.andThen_snd, traceAll_snd s es]
    rfl

end

/-- A call stems from one of some places where functions are named. -/
def StemsFrom (sites : List CallSite) (i : Invocation) : Prop :=
  ∃ site ∈ sites, Builtin.ofName? site.callee = some i.function ∧ i.args.length = site.arity

theorem StemsFrom.mono {sites others : List CallSite} {i : Invocation} (h : StemsFrom sites i)
    (hsub : sites ⊆ others) : StemsFrom others i := by
  obtain ⟨site, hsite, hi⟩ := h
  exact ⟨site, hsub hsite, hi⟩

mutual

theorem stemsFrom_of_mem_trace {s : State} {i : Invocation} : ∀ e : Expr, i ∈ (e.trace s).1 →
    StemsFrom e.calls i
  | .literal value, h => by
    rw [trace] at h
    cases h
  | .ident name, h => by
    rw [trace] at h
    cases h
  | .unary op operand, h => by
    rw [trace] at h
    rw [calls]
    rcases Traced.mem_andThen h with h | ⟨v, -, h⟩
    · exact stemsFrom_of_mem_trace operand h
    · cases h
  | .binary op left right, h => by
    rw [trace] at h
    rw [calls]
    rcases Traced.mem_andThen h with h | ⟨v, -, h⟩
    · exact (stemsFrom_of_mem_trace left h).mono (List.subset_append_left ..)
    · split at h
      · cases h
      · rcases Traced.mem_andThen h with h | ⟨w, -, h⟩
        · exact (stemsFrom_of_mem_trace right h).mono (List.subset_append_right ..)
        · cases h
  | .call callee args, h => by
    rw [trace] at h
    rw [calls]
    split at h
    · cases h
    · rename_i b hb
      rcases Traced.mem_andThen h with h | ⟨vs, hvs, h⟩
      · exact (stemsFrom_of_mem_traceAll args h).mono (List.subset_cons_self ..)
      · rw [List.mem_singleton.1 h]
        rw [traceAll_snd] at hvs
        exact ⟨⟨callee, args.length⟩, List.mem_cons_self, hb, length_of_evaluateAll hvs⟩

theorem stemsFrom_of_mem_traceAll {s : State} {i : Invocation} : ∀ es : List Expr,
    i ∈ (traceAll s es).1 → StemsFrom (callsAll es) i
  | [], h => by
    rw [traceAll] at h
    cases h
  | e :: es, h => by
    rw [traceAll] at h
    rw [callsAll]
    rcases Traced.mem_andThen h with h | ⟨v, -, h⟩
    · exact (stemsFrom_of_mem_trace e h).mono (List.subset_append_left ..)
    · rcases Traced.mem_andThen h with h | ⟨vs, -, h⟩
      · exact (stemsFrom_of_mem_traceAll es h).mono (List.subset_append_right ..)
      · cases h

end

theorem fits_of_mem_trace {s : State} {e : Expr} (hs : ∀ site ∈ e.calls, site.Supplied)
    {i : Invocation} (h : i ∈ (e.trace s).1) : i.Fits := by
  obtain ⟨site, hsite, hb, hlength⟩ := stemsFrom_of_mem_trace e h
  obtain ⟨b, hb', hfits⟩ := hs site hsite
  obtain rfl : i.function = b := Option.some.inj (hb.symm.trans hb')
  rw [Invocation.Fits, hlength]
  exact hfits

end Expr

end ReactiveView
