import ReactiveView.Expr.Evaluate

namespace ReactiveView

theorem exists_ok_of_any {ε α : Type} (x : Except ε α) (check : α → Bool)
    (h : x.toOption.any check = true) : ∃ a, x = .ok a ∧ check a = true := by
  cases x with
  | error e => cases h
  | ok a => exact ⟨a, rfl, h⟩

def AgreeOn (names : List String) (s t : State) : Prop := ∀ x ∈ names, s.get? x = t.get? x

theorem AgreeOn.refl (names : List String) (s : State) : AgreeOn names s s := fun _ _ => rfl

theorem AgreeOn.trans (names : List String) (s t u : State) (h : AgreeOn names s t)
    (h' : AgreeOn names t u) : AgreeOn names s u := fun x hx => (h x hx).trans (h' x hx)

theorem AgreeOn.mono {names fewer : List String} {s t : State} (h : AgreeOn names s t)
    (hsub : fewer ⊆ names) : AgreeOn fewer s t := fun x hx => h x (hsub hx)

namespace Expr

theorem lookup_congr {s t : State} {name : String} (h : s.get? name = t.get? name) :
    lookup s name = lookup t name := by rw [lookup, lookup, h]

mutual

theorem evaluate_congr {s t : State} : ∀ e : Expr, AgreeOn e.reads s t →
    e.evaluate s = e.evaluate t
  | .literal _, _ => by rw [evaluate, evaluate]
  | .ident name, h => by
    rw [evaluate, evaluate]
    exact lookup_congr (h name (by simp [reads]))
  | .unary op operand, h => by
    have ho := evaluate_congr operand (h.mono (by simp [reads]))
    rw [evaluate, evaluate, ho]
  | .binary op left right, h => by
    have hl := evaluate_congr left (h.mono (by simp [reads]))
    have hr := evaluate_congr right (h.mono (by simp [reads]))
    rw [evaluate, evaluate, hl, hr]
  | .call callee args, h => by
    have ha := evaluateAll_congr args (h.mono (by simp [reads]))
    rw [evaluate, evaluate, ha]

theorem evaluateAll_congr {s t : State} : ∀ es : List Expr, AgreeOn (readsAll es) s t →
    evaluateAll s es = evaluateAll t es
  | [], _ => by rw [evaluateAll, evaluateAll]
  | e :: es, h => by
    have he := evaluate_congr e (h.mono (by simp [readsAll]))
    have hes := evaluateAll_congr es (h.mono (by simp [readsAll]))
    rw [evaluateAll, evaluateAll, he, hes]

end

theorem length_of_evaluateAll {s : State} {es : List Expr} {vs : List Value}
    (h : evaluateAll s es = .ok vs) : vs.length = es.length := by
  induction es generalizing vs with
  | nil =>
    rw [evaluateAll] at h
    cases h
    rfl
  | cons e es ih =>
    rw [evaluateAll] at h
    cases he : e.evaluate s with
    | error fault =>
      rw [he] at h
      cases h
    | ok v =>
      cases hes : evaluateAll s es with
      | error fault =>
        rw [he, hes] at h
        cases h
      | ok vs' =>
        rw [he, hes] at h
        cases h
        rw [List.length_cons, List.length_cons, ih hes]

end Expr

def FailsOnly {α : Type} (P : Fault → Prop) (answer : Except Fault α) : Prop :=
  ∀ fault, answer = .error fault → P fault

namespace FailsOnly

variable {α β : Type} {P Q : Fault → Prop}

theorem ok (a : α) : FailsOnly P (.ok a) := fun _ h => nomatch h

theorem error {fault : Fault} (h : P fault) : FailsOnly (α := α) P (.error fault) := by
  rintro other ⟨⟩
  exact h

theorem mono {answer : Except Fault α} (h : FailsOnly P answer) (hPQ : ∀ fault, P fault → Q fault) :
    FailsOnly Q answer := fun fault hf => hPQ fault (h fault hf)

theorem bind {answer : Except Fault α} {f : α → Except Fault β} (h : FailsOnly P answer)
    (hf : ∀ a, answer = .ok a → FailsOnly P (f a)) : FailsOnly P (answer >>= f) := by
  cases answer with
  | ok a => exact hf a rfl
  | error fault => exact error (h fault rfl)

theorem map {answer : Except Fault α} (f : α → β) (h : FailsOnly P answer) :
    FailsOnly P (answer.map f) := by
  cases answer with
  | ok a => exact ok (f a)
  | error fault => exact error (h fault rfl)

end FailsOnly

/-- Faults that come from values: kinds that do not fit, a division by zero, or a text that would be too
large. -/
def Fault.OfValues : Fault → Prop
  | .evaluation cause => cause.errorClass = .typeMismatch ∨ cause.errorClass = .divisionByZero
  | .sandbox cause => cause.code = .memoryExceeded
  | .missingArgument _ | .notWhole _ => False

abbrev FailsByValue {α : Type} (answer : Except Fault α) : Prop := FailsOnly Fault.OfValues answer

namespace Builtin

theorem reject_mismatch {α : Type} {cause : EvalError} (h : cause.errorClass = .typeMismatch) :
    FailsByValue (reject cause : Except Fault α) := FailsOnly.error (Or.inl h)

theorem expectNumber_byValue (b : Builtin) (v : Value) : FailsByValue (expectNumber b v) := by
  cases v with
  | int n | float x => exact .ok _
  | str s | bool c | null => exact reject_mismatch rfl

theorem expectText_byValue (b : Builtin) (v : Value) : FailsByValue (expectText b v) := by
  cases v with
  | str s => exact .ok s
  | int n | float x | bool c | null => exact reject_mismatch rfl

theorem expectWhole_byValue (b : Builtin) (v : Value) : FailsByValue (expectWhole b v) := by
  cases v with
  | int n => exact .ok n
  | float x | str s | bool c | null => exact reject_mismatch rfl

theorem isFinite_of_inRange {x : Binary64} (hn : x.isNaN = false) (hhigh : rangeEnd.numLe x = false)
    (hlow : x.numLe rangeEnd.neg = false) : x.isFinite = true := by
  cases x with
  | nan => cases hn
  | signed negative code =>
    rw [Binary64.isFinite, decide_eq_true_eq]
    refine Nat.lt_of_le_of_ne (Nat.le_of_lt_succ code.isLt) fun hcode => ?_
    -- an infinity lies beyond one end of the range
    obtain rfl : code = ⟨infinityCode, by decide⟩ := Fin.ext hcode
    cases negative with
    | false => exact absurd hhigh (by decide +kernel)
    | true => exact absurd hlow (by decide +kernel)

theorem exists_toWhole (b : Builtin) {x : Binary64} (hn : x.isNaN = false) : ∃ v, toWhole b x = .ok v := by
  rw [toWhole, hn, if_neg Bool.false_ne_true]
  split
  · exact ⟨_, rfl⟩
  · split
    · exact ⟨_, rfl⟩
    · rename_i hhigh hlow
      have hfinite := isFinite_of_inRange hn (Bool.not_eq_true _ ▸ hhigh) (Bool.not_eq_true _ ▸ hlow)
      rw [convert, Value.ofNumber?, if_pos hfinite]
      exact ⟨_, rfl⟩

theorem toWhole_byValue (b : Builtin) (x : Binary64) : FailsByValue (toWhole b x) := by
  cases hn : x.isNaN with
  | true =>
    rw [toWhole, if_pos hn]
    exact reject_mismatch rfl
  | false =>
    obtain ⟨v, hv⟩ := exists_toWhole b hn
    rw [hv]
    exact .ok v

theorem rounded_byValue (b : Builtin) (rounding : Binary64.Rounding) (v : Value) :
    FailsByValue (rounded b rounding v) := by
  cases v with
  | int n => exact .ok _
  | float x => exact toWhole_byValue b _
  | str s | bool c | null => exact reject_mismatch rfl

theorem choose_byValue (b : Builtin) (smaller : Bool) (v w : Value) :
    FailsByValue (choose b smaller v w) := by
  refine (expectNumber_byValue b v).bind fun x _ => (expectNumber_byValue b w).bind fun y _ => ?_
  cases x <;> cases y <;> exact .ok _

theorem toInt_byValue (v : Value) : FailsByValue (toInt v) := by
  cases v with
  | int n | bool c => exact .ok _
  | float x => exact toWhole_byValue .int _
  | null => exact reject_mismatch rfl
  | str s =>
    unfold toInt
    dsimp only
    split
    · exact .ok _
    · split
      · exact toWhole_byValue .int _
      · exact reject_mismatch rfl

theorem toFloat_byValue (v : Value) : FailsByValue (toFloat v) := by
  cases v with
  | int n | float x | bool c => exact .ok _
  | null => exact reject_mismatch rfl
  | str s =>
    unfold toFloat
    dsimp only
    split
    · exact .ok _
    · exact reject_mismatch rfl

theorem absolute_byValue (v : Value) : FailsByValue (absolute v) := by
  cases v with
  | int n | float x => exact .ok _
  | str s | bool c | null => exact reject_mismatch rfl

def Blame (b : Builtin) (vs : List Value) (fault : Fault) : Prop :=
  fault.OfValues ∨ fault = .missingArgument b ∧ vs.length < b.minArgs

section Blame

variable {b : Builtin} (vs : List Value)

theorem unary_blame {f : Value → Answer} (h : b.minArgs = 1) (hf : ∀ v, FailsByValue (f v)) :
    FailsOnly (b.Blame vs) (unary b f vs) := by
  match vs with
  | [] => exact .error (Or.inr ⟨rfl, by simp [h]⟩)
  | v :: _ => exact (hf v).mono fun _ => Or.inl

theorem binary_blame {f : Value → Value → Answer} (h : b.minArgs = 2)
    (hf : ∀ v w, FailsByValue (f v w)) : FailsOnly (b.Blame vs) (binary b f vs) := by
  match vs with
  | [] | [_] => exact .error (Or.inr ⟨rfl, by simp [h]⟩)
  | v :: w :: _ => exact (hf v w).mono fun _ => Or.inl

theorem ternary_blame {f : Value → Value → Value → Answer} (h : b.minArgs = 3)
    (hf : ∀ v w u, FailsByValue (f v w u)) : FailsOnly (b.Blame vs) (ternary b f vs) := by
  match vs with
  | [] | [_] | [_, _] => exact .error (Or.inr ⟨rfl, by simp [h]⟩)
  | v :: w :: u :: _ => exact (hf v w u).mono fun _ => Or.inl

theorem pad_blame (atStart : Bool) (h : b.minArgs = 2) :
    FailsOnly (b.Blame vs) (pad b atStart vs) := by
  match vs with
  | [] | [_] => exact .error (Or.inr ⟨rfl, by simp [h]⟩)
  | v :: w :: rest =>
    refine FailsOnly.mono (P := Fault.OfValues) ?_ fun _ => Or.inl
    refine (expectText_byValue b v).bind fun s _ => (expectWhole_byValue b w).bind fun width _ => ?_
    have hfill (fill : String) : FailsByValue (if memoryLimitBytes < width then
        throw (.sandbox (.widthExceeded b width))
        else (.ok (.str (padded atStart s width fill)) : Answer)) := by
      split
      · exact .error rfl
      · exact .ok _
    cases rest with
    | nil => exact hfill " "
    | cons u _ => exact (expectText_byValue b u).bind fun fill _ => hfill fill

end Blame

theorem apply_blame (b : Builtin) (vs : List Value) : FailsOnly (b.Blame vs) (b.apply vs) := by
  cases b with
  | abs => exact unary_blame vs rfl absolute_byValue
  | min | max => exact binary_blame vs rfl (choose_byValue _ _)
  | floor | ceil | round => exact unary_blame vs rfl (rounded_byValue _ _)
  | sqrt => exact unary_blame vs rfl fun v => (expectNumber_byValue _ v).bind fun _ _ => .ok _
  | len | upper | lower | trim =>
    exact unary_blame vs rfl fun v => (expectText_byValue _ v).bind fun _ _ => .ok _
  | str | bool | isNull | type => exact unary_blame vs rfl fun _ => .ok _
  | contains | startsWith | endsWith =>
    exact binary_blame vs rfl fun v w => (expectText_byValue _ v).bind fun _ _ =>
      (expectText_byValue _ w).bind fun _ _ => .ok _
  | replace =>
    exact ternary_blame vs rfl fun v w u => (expectText_byValue _ v).bind fun _ _ =>
      (expectText_byValue _ w).bind fun _ _ => (expectText_byValue _ u).bind fun _ _ => .ok _
  | padStart | padEnd => exact pad_blame vs _ rfl
  | int => exact unary_blame vs rfl toInt_byValue
  | float => exact unary_blame vs rfl toFloat_byValue

end Builtin

namespace Expr

theorem mismatch_byValue {α : Type} (symbol : String) (v : Value) (w : Option Value) :
    FailsByValue (mismatch symbol v w : Except Fault α) := FailsOnly.error (Or.inl rfl)

theorem divisionByZero_byValue (op : ArithmeticOp) : FailsByValue (divisionByZero op) :=
  FailsOnly.error (Or.inr rfl)

theorem applyUnary_byValue (op : UnaryOp) (v : Value) : FailsByValue (applyUnary op v) := by
  cases op with
  | not =>
    cases v with
    | bool b => exact .ok _
    | int n | float x | str s | null => exact mismatch_byValue _ _ _
  | neg =>
    cases v with
    | int n | float x => exact .ok _
    | bool b | str s | null => exact mismatch_byValue _ _ _

theorem applyArithmetic_byValue (op : ArithmeticOp) (v w : Value) :
    FailsByValue (applyArithmetic op v w) := by
  have hwhole (m n : Int) : FailsByValue (applyWhole op m n) := by
    cases op with
    | add | sub | mul => exact .ok _
    | div | rem =>
      rw [applyWhole]
      split
      · exact divisionByZero_byValue _
      · exact .ok _
  have hbinary (x y : Binary64) : FailsByValue (applyBinary64 op x y) := by
    cases op with
    | add | sub | mul => exact .ok _
    | div | rem =>
      rw [applyBinary64]
      split
      · exact divisionByZero_byValue _
      · exact .ok _
  simp only [applyArithmetic]
  split
  · exact hwhole _ _
  · split
    · exact hbinary _ _
    · exact mismatch_byValue _ _ _

theorem applyPower_byValue (v w : Value) : FailsByValue (applyPower v w) := by
  simp only [applyPower]
  split
  · split
    · exact .ok _
    · exact .ok _
  · split
    · exact .ok _
    · exact mismatch_byValue _ _ _

theorem applyRelational_byValue (op : RelationalOp) (v w : Value) :
    FailsByValue (applyRelational op v w) := by
  simp only [applyRelational]
  split
  · exact .ok _
  · split
    · exact .ok _
    · exact mismatch_byValue _ _ _

theorem applyBinary_byValue (op : BinaryOp) (v w : Value) : FailsByValue (applyBinary op v w) := by
  cases op with
  | arithmetic op =>
    cases op with
    | add =>
      rw [applyBinary]
      split
      · exact .ok _
      · exact applyArithmetic_byValue _ _ _
    | sub | mul | div | rem => exact applyArithmetic_byValue _ _ _
  | pow => exact applyPower_byValue v w
  | relational op => exact applyRelational_byValue op v w
  | eq | ne | coalesce => exact .ok _
  | and | or =>
    cases v with
    | bool b =>
      cases w with
      | bool c => exact .ok _
      | int n | float x | str t | null => exact mismatch_byValue _ _ _
    | int n | float x | str t | null => exact mismatch_byValue _ _ _

theorem decided_byValue {op : BinaryOp} {v : Value} {answer : Except Fault Value}
    (h : decided? op v = some answer) : FailsByValue answer := by
  simp only [decided?] at h
  split at h <;> cases h
  · exact .ok _
  · exact .ok _
  · exact mismatch_byValue _ _ _
  · exact mismatch_byValue _ _ _
  · exact .ok _

/-- What an expression that reads some variables and makes some calls can fail by: values, a variable
that is not there, a function that does not exist, or a call with too few arguments. -/
inductive Blame (s : State) (names : List String) (sites : List CallSite) : Fault → Prop where
  | values {fault : Fault} (h : fault.OfValues) : Blame s names sites fault
  | absent {x : String} (hx : x ∈ names) (h : s.get? x = none) :
      Blame s names sites (.evaluation (.undefinedVariable x))
  | unknown {site : CallSite} (hsite : site ∈ sites) (h : Builtin.ofName? site.callee = none) :
      Blame s names sites (.evaluation (.unknownFunction site.callee))
  | lacking {site : CallSite} {b : Builtin} (hsite : site ∈ sites)
      (hb : Builtin.ofName? site.callee = some b) (h : site.arity < b.minArgs) :
      Blame s names sites (.missingArgument b)

theorem Blame.mono {s : State} {names more : List String} {sites others : List CallSite}
    (hn : names ⊆ more) (hs : sites ⊆ others) (fault : Fault) (h : Blame s names sites fault) :
    Blame s more others fault := by
  cases h with
  | values h => exact .values h
  | absent hx h => exact .absent (hn hx) h
  | unknown hsite h => exact .unknown (hs hsite) h
  | lacking hsite hb h => exact .lacking (hs hsite) hb h

theorem lookup_blame (s : State) (name : String) (sites : List CallSite) :
    FailsOnly (Blame s [name] sites) (lookup s name) := by
  rw [lookup]
  split
  · exact .ok _
  · rename_i h
    exact .error (.absent (List.mem_singleton_self name) h)

mutual

theorem evaluate_blame (s : State) : ∀ e : Expr, FailsOnly (Blame s e.reads e.calls) (e.evaluate s)
  | .literal value => by
    rw [evaluate]
    exact .ok value
  | .ident name => by
    rw [evaluate, reads]
    exact lookup_blame s name _
  | .unary op operand => by
    have ho := evaluate_blame s operand
    rw [evaluate, reads, calls]
    exact ho.bind fun v _ => (applyUnary_byValue op v).mono fun _ => .values
  | .binary op left right => by
    have hl := (evaluate_blame s left).mono
      (Blame.mono (List.subset_append_left _ right.reads) (List.subset_append_left _ right.calls))
    have hr := (evaluate_blame s right).mono
      (Blame.mono (List.subset_append_right left.reads _) (List.subset_append_right left.calls _))
    rw [evaluate, reads, calls]
    refine hl.bind fun v _ => ?_
    -- the right operand is evaluated just if the left one does not decide
    cases hd : decided? op v with
    | some answer => exact (decided_byValue hd).mono fun _ => .values
    | none => exact hr.bind fun w _ => (applyBinary_byValue op v w).mono fun _ => .values
  | .call callee args => by
    have ha := (evaluateAll_blame s args).mono
      (Blame.mono (List.Subset.refl _) (List.subset_cons_self ⟨callee, args.length⟩ _))
    have hsite : ⟨callee, args.length⟩ ∈ CallSite.mk callee args.length :: callsAll args :=
      List.mem_cons_self
    rw [evaluate, reads, calls]
    cases hb : Builtin.ofName? callee with
    | none => exact .error (.unknown hsite hb)
    | some b =>
      refine ha.bind fun vs hvs => (b.apply_blame vs).mono fun fault hfault => ?_
      rcases hfault with hvalues | ⟨rfl, hlt⟩
      · exact .values hvalues
      · rw [length_of_evaluateAll hvs] at hlt
        exact .lacking hsite hb hlt

theorem evaluateAll_blame (s : State) : ∀ es : List Expr,
    FailsOnly (Blame s (readsAll es) (callsAll es)) (evaluateAll s es)
  | [] => by
    rw [evaluateAll]
    exact .ok _
  | e :: es => by
    have he := (evaluate_blame s e).mono
      (Blame.mono (List.subset_append_left _ (readsAll es)) (List.subset_append_left _ (callsAll es)))
    have hes := (evaluateAll_blame s es).mono
      (Blame.mono (List.subset_append_right e.reads _) (List.subset_append_right e.calls _))
    rw [evaluateAll, readsAll, callsAll]
    exact he.bind fun v _ => hes.bind fun vs _ => .ok _

end

end Expr

def CallSite.Supplied (site : CallSite) : Prop :=
  ∃ b, Builtin.ofName? site.callee = some b ∧ b.minArgs ≤ site.arity ∧ site.arity ≤ b.maxArgs

theorem Expr.Blame.ofValues {s : State} {names : List String} {sites : List CallSite} {fault : Fault}
    (h : Expr.Blame s names sites fault) (hn : ∀ x ∈ names, s.get? x ≠ none)
    (hs : ∀ site ∈ sites, site.Supplied) : fault.OfValues := by
  cases h with
  | values h => exact h
  | absent hx h => exact absurd h (hn _ hx)
  | unknown hsite h =>
    obtain ⟨b, hb, -⟩ := hs _ hsite
    rw [h] at hb
    cases hb
  | lacking hsite hb hlt =>
    obtain ⟨b, hb', hle, -⟩ := hs _ hsite
    obtain rfl : b = _ := Option.some.inj (hb'.symm.trans hb)
    exact absurd hle (Nat.not_le.2 hlt)

end ReactiveView
