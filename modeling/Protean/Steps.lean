import Protean.Proc
import Protean.Run

/-- A request as the store sees it. Each step is one call: it may write, and the
rest goes on by what was found. Calls of other requests may come between two steps. -/
inductive Steps (S W α : Type)
  | done (answer : Option α)
  | step (call : S → Option (W × Outcome)) (next : S → Steps S W α)

namespace Steps

variable {S W α β : Type}

def bind : Steps S W α → (α → Steps S W β) → Steps S W β
  | done none, _ => done none
  | done (some a), f => f a
  | step call next, f => step call fun s => (next s).bind f

instance : Monad (Steps S W) where
  pure a := done (some a)
  bind := bind

/-- Not a call. -/
def lift (o : Option α) : Steps S W α := done o

def guard (check : Bool) : Steps S W Unit := lift (if check then some () else none)

def read (f : S → Option α) : Steps S W α := step (fun _ => none) fun s => done (f s)

/-- A call that writes nothing that is looked at here. -/
def call (works : Bool) : Steps S W Unit := step (fun _ => none) fun _ => guard works

/-- A call that writes by what it finds, or is turned down. -/
def insert (outcome : Outcome) (w : S → Option W) (answer : S → α) : Steps S W α :=
  step (fun s => (w s).map (·, outcome)) fun s =>
    done (if (w s).isSome ∧ outcome = .ok then some (answer s) else none)

def write (outcome : Outcome) (w : W) : Steps S W Unit := insert outcome (fun _ => some w) fun _ => ()

/-- Goes on after a failure. -/
def attempt : Steps S W α → Steps S W (Option α)
  | done answer => done (some answer)
  | step call next => step call fun s => (next s).attempt

/-- The call that comes next. -/
def pending (s : S) : Steps S W α → Option (W × Outcome)
  | done _ => none
  | step call _ => call s

/-- The write of a call, if it is done. -/
def written : Option (W × Outcome) → Option W
  | some (w, .ok) => some w
  | some (w, .lost) => some w
  | _ => none

section
variable (apply : W → S → S)

def effect (call : Option (W × Outcome)) (s : S) : S := (written call).elim s (apply · s)

/-- Without another request between its steps. -/
def exec : Steps S W α → S → Option α × S
  | done answer, s => (answer, s)
  | step call next, s => (next s).exec (effect apply (call s) s)

/-- The writes of such a run. -/
def log : Steps S W α → S → List W
  | done _, _ => []
  | step call next, s => (written (call s)).toList ++ (next s).log (effect apply (call s) s)

theorem after_toList (w : Option W) (s : S) :
    Run.after (fun s w => apply w s) s w.toList = w.elim s (apply · s) := by
  cases w <;> rfl

/-- One request after the other. -/
def trace {E : Type} (request : E → Steps S W α) : S → List E → List W
  | _, [] => []
  | s, e :: es => (request e).log apply s ++ trace request ((request e).exec apply s).2 es

theorem exec_state (m : Steps S W α) (s : S) : (m.exec apply s).2 = Run.after (fun s w => apply w s) s (m.log apply s) := by
  induction m generalizing s with
  | done answer => rfl
  | step call next ih => rw [exec, log, Run.after_append, after_toList, ih, effect]

end

/-- From a state with `P`, every write of the request is `ok` when it is made, and an
answer leaves `Q`. -/
def Triple (apply : W → S → S) (ok : S → W → Prop) (P : S → Prop) (m : Steps S W α) (Q : α → S → Prop) : Prop :=
  ∀ s, P s → Run.Meets (fun s w => apply w s) ok s (m.log apply s) ∧
    ∀ a, (m.exec apply s).1 = some a → Q a (m.exec apply s).2

section
variable {apply : W → S → S} {ok : S → W → Prop} {P P' : S → Prop} {Q Q' : α → S → Prop} {R : β → S → Prop}

theorem Triple.mono {m : Steps S W α} (triple : Triple apply ok P m Q) (start : ∀ s, P' s → P s)
    (answers : ∀ a s, Q a s → Q' a s) : Triple apply ok P' m Q' := by
  intro s holds
  obtain ⟨meets, answer⟩ := triple s (start s holds)
  exact ⟨meets, fun a found => answers a _ (answer a found)⟩

theorem Triple.bind {m : Steps S W α} {f : α → Steps S W β} (first : Triple apply ok P m Q)
    (rest : ∀ a, Triple apply ok (Q a) (f a) R) : Triple apply ok P (m >>= f) R := by
  intro s holds
  obtain ⟨meets, answer⟩ := first s holds
  clear first holds
  change Run.Meets _ ok s ((Steps.bind m f).log apply s) ∧
    ∀ b, ((Steps.bind m f).exec apply s).1 = some b → R b ((Steps.bind m f).exec apply s).2
  induction m generalizing s with
  | done found =>
    cases found with
    | none => exact ⟨trivial, fun b none' => by cases none'⟩
    | some a => exact rest a s (answer a rfl)
  | step call next ih =>
    rw [log, Run.Meets.append, after_toList] at meets
    obtain ⟨last, answers⟩ := ih s _ meets.2 answer
    refine ⟨?_, answers⟩
    rw [Steps.bind, log, Run.Meets.append, after_toList]
    exact ⟨meets.1, last⟩

theorem Triple.lift {o : Option α} (answers : ∀ a s, o = some a → P s → Q a s) : Triple apply ok P (Steps.lift o) Q :=
  fun s holds => ⟨trivial, fun a found => answers a s found holds⟩

theorem Triple.pure {a : α} (holds : ∀ s, P s → Q a s) : Triple apply ok P (Pure.pure a) Q :=
  Triple.lift fun _ s same start => Option.some.inj same ▸ holds s start

theorem Triple.guard {check : Bool} {Q : Unit → S → Prop} (answers : ∀ s, check = true → P s → Q () s) :
    Triple apply ok P (Steps.guard check) Q := by
  refine Triple.lift fun a s passed start => ?_
  cases check with
  | false => cases passed
  | true => exact answers s rfl start

theorem Triple.read {f : S → Option α} (answers : ∀ a s, f s = some a → P s → Q a s) :
    Triple apply ok P (Steps.read f) Q :=
  fun s holds => ⟨trivial, fun a found => answers a s found holds⟩

theorem Triple.lift_bind {o : Option α} {f : α → Steps S W β} (rest : ∀ a, o = some a → Triple apply ok P (f a) R) :
    Triple apply ok P (Steps.lift o >>= f) R := by
  cases o with
  | none => exact fun s _ => ⟨trivial, fun b none' => by cases none'⟩
  | some a => exact rest a rfl

theorem Triple.guard_bind {check : Bool} {f : Unit → Steps S W β} (rest : check = true → Triple apply ok P (f ()) R) :
    Triple apply ok P (Steps.guard check >>= f) R := by
  refine Triple.lift_bind fun _ passed => rest ?_
  cases check with
  | false => cases passed
  | true => rfl

/-- What was read is known until the next write. -/
theorem Triple.read_bind {f : S → Option α} {g : α → Steps S W β}
    (rest : ∀ a, Triple apply ok (fun s => P s ∧ f s = some a) (g a) R) : Triple apply ok P (Steps.read f >>= g) R :=
  Triple.bind (Triple.read fun _ _ found start => ⟨start, found⟩) rest

theorem Triple.call {works : Bool} {Q : Unit → S → Prop} (answers : ∀ s, works = true → P s → Q () s) :
    Triple apply ok P (Steps.call works) Q := by
  intro s start
  refine ⟨trivial, fun a passed => ?_⟩
  cases works with
  | false => cases passed
  | true => exact answers s rfl start

theorem Triple.call_bind {works : Bool} {f : Unit → Steps S W β} (rest : Triple apply ok P (f ()) R) :
    Triple apply ok P (Steps.call works >>= f) R :=
  Triple.bind (Q := fun _ => P) (Triple.call fun _ _ start => start) fun _ => rest

theorem log_insert (outcome : Outcome) (w : S → Option W) (answer : S → α) (s : S) :
    (Steps.insert outcome w answer).log apply s = (written ((w s).map (·, outcome))).toList := List.append_nil _

theorem Triple.insert {outcome : Outcome} {w : S → Option W} {answer : S → α}
    (good : ∀ s v, P s → w s = some v → ok s v) (answers : ∀ s v, P s → w s = some v → Q (answer s) (apply v s)) :
    Triple apply ok P (Steps.insert outcome w answer) Q := by
  intro s start
  have result : ((Steps.insert outcome w answer).exec apply s) =
      (if (w s).isSome ∧ outcome = .ok then some (answer s) else none, effect apply ((w s).map (·, outcome)) s) := rfl
  rw [log_insert, result]
  cases found : w s with
  | none => exact ⟨trivial, fun a none' => by cases none'⟩
  | some v =>
    have done : ok s v := good s v start found
    cases outcome with
    | ok =>
      refine ⟨⟨done, trivial⟩, fun a same => ?_⟩
      obtain rfl : answer s = a := by simpa using same
      exact answers s v start found
    | failed => exact ⟨trivial, fun a none' => by cases none'⟩
    | lost => exact ⟨⟨done, trivial⟩, fun a none' => by cases none'⟩

theorem Triple.write {outcome : Outcome} {v : W} {Q : Unit → S → Prop} (good : ∀ s, P s → ok s v)
    (answers : ∀ s, P s → Q () (apply v s)) : Triple apply ok P (Steps.write outcome v) Q :=
  Triple.insert (fun s _ start same => Option.some.inj same ▸ good s start) fun s _ start same =>
    Option.some.inj same ▸ answers s start

theorem log_attempt (m : Steps S W α) (s : S) : m.attempt.log apply s = m.log apply s := by
  induction m generalizing s with
  | done answer => rfl
  | step call next ih => rw [Steps.attempt, log, log, ih]

theorem exec_attempt (m : Steps S W α) (s : S) :
    m.attempt.exec apply s = (some (m.exec apply s).1, (m.exec apply s).2) := by
  induction m generalizing s with
  | done answer => rfl
  | step call next ih => rw [Steps.attempt, exec, exec, ih]

/-- What the writes keep holds after a failure as well. -/
theorem Triple.attempt {I : S → Prop} {m : Steps S W α} (keep : ∀ s w, I s → ok s w → I (apply w s))
    (triple : Triple apply ok I m Q) :
    Triple apply ok I m.attempt fun o s => I s ∧ ∀ a, o = some a → Q a s := by
  intro s start
  obtain ⟨meets, answers⟩ := triple s start
  rw [log_attempt, exec_attempt]
  refine ⟨meets, fun o same => ⟨?_, fun a found => answers a ?_⟩⟩
  · rw [exec_state]
    exact meets.invariant I keep start
  · rw [Option.some.inj same, found]

/-- What each of the requests keeps holds at every point of all of them. -/
theorem Triple.throughout {E : Type} {request : E → Steps S W α} {I : S → Prop} (keep : ∀ s w, I s → ok s w → I (apply w s))
    {es : List E} (each : ∀ e ∈ es, Triple apply ok I (request e) fun _ _ => True) {s : S} (start : I s) {first : List W}
    (part : first <+: trace apply request s es) : I (Run.after (fun s w => apply w s) s first) := by
  suffices meets : Run.Meets (fun s w => apply w s) ok s (trace apply request s es) from
    (meets.of_prefix part).invariant I keep start
  clear part
  induction es generalizing s with
  | nil => trivial
  | cons e es ih =>
    rw [List.forall_mem_cons] at each
    have here := (each.1 s start).1
    rw [trace, Run.Meets.append, ← exec_state]
    refine ⟨here, ih each.2 ?_⟩
    rw [exec_state]
    exact here.invariant I keep start

/-- The writes of requests one after the other, each `ok` when it is made. -/
theorem meets_trace_iff {E : Type} (request : E → Steps S W α) (s : S) (es : List E) :
    Run.Meets (fun s w => apply w s) ok s (trace apply request s es) ↔
      Run.Meets (fun s e => ((request e).exec apply s).2)
        (fun s e => Run.Meets (fun s w => apply w s) ok s ((request e).log apply s)) s es := by
  induction es generalizing s with
  | nil => exact Iff.rfl
  | cons e es ih =>
    rw [trace, Run.Meets.append, ← exec_state, ih]
    exact Iff.rfl

end

/-- What the calls of a request are related by: the state in which a call is made,
the call, and what is left to do. -/
def Follows (R : S → Option (W × Outcome) → Steps S W α → Prop) : Steps S W α → Prop
  | done _ => True
  | step call next => ∀ s, R s (call s) (next s) ∧ (next s).Follows R

/-- Requests with a store, and what has been written to it. -/
structure Pool (S W α : Type) where
  state : S
  threads : Nat → Steps S W α
  log : List W := []

namespace Pool

variable (apply : W → S → S)

/-- One request makes its next call. -/
def step (p : Pool S W α) (i : Nat) : Pool S W α :=
  match p.threads i with
  | .done _ => p
  | .step call next => ⟨effect apply (call p.state) p.state, Function.update p.threads i (next p.state),
      p.log ++ (written (call p.state)).toList⟩

def pending (p : Pool S W α) (i : Nat) : Option (W × Outcome) := (p.threads i).pending p.state

variable {apply} {p : Pool S W α} {i : Nat}

theorem state_step (p : Pool S W α) (i : Nat) : (p.step apply i).state = effect apply (p.pending i) p.state := by
  unfold step pending
  cases p.threads i <;> rfl

theorem log_step (p : Pool S W α) (i : Nat) : (p.step apply i).log = p.log ++ (written (p.pending i)).toList := by
  unfold step pending
  cases p.threads i with
  | done answer => exact (List.append_nil _).symm
  | step call next => rfl

theorem threads_step_of_ne {j : Nat} (other : j ≠ i) : (p.step apply i).threads j = p.threads j := by
  unfold step
  cases p.threads i with
  | done answer => rfl
  | step call next => exact Function.update_of_ne other _ _

theorem step_of_done {answer : Option α} (finished : p.threads i = .done answer) : p.step apply i = p := by
  rw [step, finished]

theorem step_of_step {call : S → Option (W × Outcome)} {next : S → Steps S W α} (running : p.threads i = .step call next) :
    p.step apply i = ⟨effect apply (call p.state) p.state, Function.update p.threads i (next p.state),
      p.log ++ (written (call p.state)).toList⟩ := by
  rw [step, running]

/-- Every call of every request is related to what it leaves to do. -/
theorem follows_step {R : S → Option (W × Outcome) → Steps S W α → Prop} (follows : ∀ j, (p.threads j).Follows R) (i j : Nat) :
    ((p.step apply i).threads j).Follows R := by
  cases running : p.threads i with
  | done answer =>
    rw [step_of_done running]
    exact follows j
  | step call next =>
    rw [step_of_step running]
    dsimp only
    by_cases same : j = i
    · have here := follows i
      rw [running] at here
      rw [same, Function.update_self]
      exact (here p.state).2
    · rw [Function.update_of_ne same]
      exact follows j

/-- What a single write keeps or breaks, beside what every write keeps, the requests keep all
the way exactly if each of their writes does. -/
theorem throughout_iff_beside {Aux Inv : S → Prop} {ok : S → W → Prop} (keeps : ∀ s w, Aux s → Aux (apply w s))
    (exact : ∀ s w, Aux s → Inv s → (Inv (apply w s) ↔ ok s w)) (aux : Aux p.state) (start : Inv p.state) (schedule : List Nat) :
    (∀ first, first <+: schedule → Inv (Run.after (step apply) p first).state) ↔
      Run.Meets (step apply) (fun p i => ∀ w, written (p.pending i) = some w → ok p.state w) p schedule := by
  have kept : ∀ (p : Pool S W α) (i : Nat), Aux p.state → True → Aux (p.step apply i).state := by
    intro p i aux _
    rw [state_step, effect]
    cases written (p.pending i) with
    | none => exact aux
    | some w => exact keeps p.state w aux
  have exact' : ∀ (p : Pool S W α) (i : Nat), Aux p.state → Inv p.state → True →
      (Inv (p.step apply i).state ↔ ∀ w, written (p.pending i) = some w → ok p.state w) := by
    intro p i aux inv _
    rw [state_step, effect]
    cases written (p.pending i) with
    | none => exact iff_of_true inv fun w none' => by cases none'
    | some w =>
      rw [Option.elim_some, exact p.state w aux inv]
      constructor
      · intro good w' same
        rwa [← Option.some.inj same]
      · intro all
        exact all w rfl
  exact Run.Meets.throughout_iff_beside kept exact' aux start (Run.Meets.of_forall (fun _ _ => trivial) p schedule)

theorem throughout_iff {Inv : S → Prop} {ok : S → W → Prop} (exact : ∀ s w, Inv s → (Inv (apply w s) ↔ ok s w))
    (start : Inv p.state) (schedule : List Nat) :
    (∀ first, first <+: schedule → Inv (Run.after (step apply) p first).state) ↔
      Run.Meets (step apply) (fun p i => ∀ w, written (p.pending i) = some w → ok p.state w) p schedule := by
  have keeps : ∀ (_ : S) (_ : W), True → True := fun _ _ aux => aux
  have exact' : ∀ s w, True → Inv s → (Inv (apply w s) ↔ ok s w) := fun s w _ inv => exact s w inv
  exact throughout_iff_beside keeps exact' trivial start schedule

end Pool

end Steps
