import Mathlib.Logic.Basic

/-- A computation on a state that answers or fails. What it did before it
failed stays done. -/
structure Proc (S α : Type) where
  exec : S → Option α × S

/-- How a write went: it was done, it was not, or it was done and the answer
got lost. -/
inductive Outcome
  | ok
  | failed
  | lost
  deriving DecidableEq, Repr

namespace Proc

variable {S T α β : Type}

instance : Monad (Proc S) where
  pure a := ⟨fun s => (some a, s)⟩
  bind m f := ⟨fun s =>
    match m.exec s with
    | (some a, s') => (f a).exec s'
    | (none, s') => (none, s')⟩

theorem exec_bind (m : Proc S α) (f : α → Proc S β) (s : S) :
    (m >>= f).exec s = match m.exec s with
      | (some a, s') => (f a).exec s'
      | (none, s') => (none, s') := rfl

variable {f : α → Proc S β} {s' : S}

/-- A sequence answers if its first part and then the rest do. -/
theorem exec_bind_eq_some_iff {m : Proc S α} {s : S} {b : β} :
    (m >>= f).exec s = (some b, s') ↔ ∃ a t, m.exec s = (some a, t) ∧ (f a).exec t = (some b, s') := by
  rw [exec_bind]
  constructor
  · intro done
    split at done
    · rename_i a t first
      exact ⟨a, t, first, done⟩
    · cases done
  · rintro ⟨a, t, first, rest⟩
    rw [first]
    exact rest

def lift (o : Option α) : Proc S α := ⟨fun s => (o, s)⟩

/-- A failure without an effect, unless the check holds. -/
def guard (check : Bool) : Proc S Unit := lift (if check then some () else none)

def when (c : Bool) (m : Proc S Unit) : Proc S Unit := if c then m else pure ()

def read (f : S → Option α) : Proc S α := ⟨fun s => (f s, s)⟩

def modify (f : S → S) : Proc S Unit := ⟨fun s => (some (), f s)⟩

def write (outcome : Outcome) (f : S → S) : Proc S Unit :=
  match outcome with
  | .ok => modify f
  | .failed => lift none
  | .lost => ⟨fun s => (none, f s)⟩

/-- A computation on a part of the state. -/
def zoom (get : S → T) (set : T → S → S) (m : Proc T α) : Proc S α :=
  ⟨fun s => ((m.exec (get s)).1, set (m.exec (get s)).2 s)⟩

/-- Goes on after a failure. -/
def attempt (m : Proc S α) : Proc S (Option α) := ⟨fun s => (some (m.exec s).1, (m.exec s).2)⟩

@[simp] theorem exec_pure (a : α) (s : S) : (pure a : Proc S α).exec s = (some a, s) := rfl

@[simp] theorem exec_lift (o : Option α) (s : S) : (lift o : Proc S α).exec s = (o, s) := rfl

@[simp] theorem exec_guard (check : Bool) (s : S) : (guard check).exec s = (if check then some () else none, s) := rfl

variable {check : Bool}

theorem exec_guard_eq_some_iff {s : S} {u : Unit} : (guard check).exec s = (some u, s') ↔ check = true ∧ s = s' := by
  cases check <;> simp

variable {o : Option α} {a : α}

theorem exec_lift_eq_some_iff {s : S} :
    (lift o).exec s = (some a, s') ↔ o = some a ∧ s = s' := Prod.mk.injEq _ _ _ _ ▸ Iff.rfl

theorem exec_guard_bind (check : Bool) (f : Unit → Proc S β) (s : S) :
    (guard check >>= f).exec s = if check then (f ()).exec s else (none, s) := by
  cases check <;> rfl

theorem exec_lift_bind (o : Option α) (f : α → Proc S β) (s : S) :
    (lift o >>= f).exec s = match o with
      | some a => (f a).exec s
      | none => (none, s) := by
  cases o <;> rfl

/-- A sequence whose first part only looks something up goes the way of the lookups. -/
theorem exec_bind_elim {γ : Type} {m : Proc S α} {f : α → Proc S γ} {g : α → Option β} {r : β → Option γ × S} {s : S}
    (looks : m.exec s = (o, s)) (rest : ∀ a, (f a).exec s = (g a).elim (none, s) r) :
    (m >>= f).exec s = (o.bind g).elim (none, s) r := by
  rw [exec_bind, looks]
  cases o with
  | none => rfl
  | some a => exact rest a

@[simp] theorem exec_read (f : S → Option α) (s : S) : (read f).exec s = (f s, s) := rfl

@[simp] theorem exec_modify (f : S → S) (s : S) : (modify f).exec s = (some (), f s) := rfl

theorem exec_write (outcome : Outcome) (f : S → S) (s : S) :
    (write outcome f).exec s = (if outcome = .ok then some () else none, if outcome = .failed then s else f s) := by
  cases outcome <;> rfl

@[simp] theorem exec_zoom (get : S → T) (set : T → S → S) (m : Proc T α) (s : S) :
    (zoom get set m).exec s = ((m.exec (get s)).1, set (m.exec (get s)).2 s) := rfl

@[simp] theorem exec_attempt (m : Proc S α) (s : S) :
    (attempt m).exec s = (some (m.exec s).1, (m.exec s).2) := rfl

/-- From a state with `P`, an answer leaves `Q` and a failure leaves `E`. -/
def Triple (P : S → Prop) (m : Proc S α) (Q : α → S → Prop) (E : S → Prop) : Prop :=
  ∀ s, P s → (∀ a s', m.exec s = (some a, s') → Q a s') ∧ ∀ s', m.exec s = (none, s') → E s'

section
variable {P P' : S → Prop} {Q Q' : α → S → Prop} {R : β → S → Prop} {E E' : S → Prop}

variable {m : Proc S α}

theorem Triple.bind (first : Triple P m Q E) (rest : ∀ a, Triple (Q a) (f a) R E) : Triple P (m >>= f) R E := by
  intro s holds
  obtain ⟨answers, fails⟩ := first s holds
  rw [exec_bind]
  rcases result : m.exec s with ⟨_ | a, s'⟩
  · refine ⟨fun b t same => (by cases same), fun t same => ?_⟩
    cases same
    exact fails s' result
  · exact rest a s' (answers a s' result)

theorem Triple.pure (holds : ∀ s, P s → Q a s) : Triple P (Pure.pure a) Q E := by
  intro s start
  refine ⟨fun b t same => ?_, fun t same => by cases same⟩
  cases same
  exact holds s start

theorem Triple.lift (answers : ∀ a s, o = some a → P s → Q a s) (fails : ∀ s, o = none → P s → E s) :
    Triple P (Proc.lift o) Q E := by
  intro s start
  refine ⟨fun a t same => ?_, fun t same => ?_⟩
  · cases same
    exact answers a s rfl start
  · cases same
    exact fails s rfl start

theorem Triple.guard {Q : Unit → S → Prop} (answers : ∀ s, check = true → P s → Q () s)
    (fails : ∀ s, check = false → P s → E s) : Triple P (Proc.guard check) Q E := by
  cases check with
  | true => exact Triple.lift (fun a s _ start => answers s rfl start) fun s none' => by cases none'
  | false => exact Triple.lift (fun a s some' => by cases some') fun s _ start => fails s rfl start

/-- What the option holds is known in the rest. -/
theorem Triple.lift_bind (fails : o = none → ∀ s, P s → E s) (rest : ∀ a, o = some a → Triple P (f a) R E) :
    Triple P (Proc.lift o >>= f) R E := by
  cases o with
  | none =>
    refine Triple.bind (Q := fun _ _ => False) (Triple.lift (fun _ _ found => ?_) fun s _ => fails rfl s) fun _ _ start =>
      start.elim
    cases found
  | some a =>
    intro s start
    exact rest a rfl s start

theorem Triple.guard_bind {f : Unit → Proc S β} (fails : check = false → ∀ s, P s → E s)
    (rest : check = true → Triple P (f ()) R E) : Triple P (Proc.guard check >>= f) R E := by
  cases check with
  | false => exact Triple.lift_bind (fun _ => fails rfl) fun _ some' => by cases some'
  | true => exact Triple.lift_bind (fun none' => by cases none') fun _ _ => rest rfl

theorem Triple.when {c : Bool} {m : Proc S Unit} {Q : Unit → S → Prop} (triple : c = true → Triple P m Q E)
    (otherwise : ∀ s, P s → Q () s) : Triple P (Proc.when c m) Q E := by
  cases c with
  | true => exact triple rfl
  | false => exact Triple.pure otherwise

theorem Triple.read {f : S → Option α} (answers : ∀ a s, f s = some a → P s → Q a s)
    (fails : ∀ s, f s = none → P s → E s) : Triple P (Proc.read f) Q E := by
  intro s start
  refine ⟨fun a t same => ?_, fun t same => ?_⟩
  · obtain ⟨found, rfl⟩ := Prod.mk.inj same
    exact answers a s found start
  · obtain ⟨missing, rfl⟩ := Prod.mk.inj same
    exact fails s missing start

theorem Triple.modify {f : S → S} {Q : Unit → S → Prop} (holds : ∀ s, P s → Q () (f s)) :
    Triple P (Proc.modify f) Q E := by
  intro s start
  refine ⟨fun a t same => ?_, fun t same => by cases same⟩
  cases same
  exact holds s start

theorem Triple.write {outcome : Outcome} {f : S → S} {Q : Unit → S → Prop}
    (done : ∀ s, outcome = .ok → P s → Q () (f s)) (failed : ∀ s, outcome = .failed → P s → E s)
    (lost : ∀ s, outcome = .lost → P s → E (f s)) : Triple P (Proc.write outcome f) Q E := by
  cases outcome with
  | ok => exact Triple.modify fun s => done s rfl
  | failed => exact Triple.lift (fun _ _ none' => by cases none') fun s _ => failed s rfl
  | lost =>
    intro s start
    refine ⟨fun a t same => (by cases same), fun t same => ?_⟩
    cases same
    exact lost s rfl start

theorem Triple.attempt {Q : Option α → S → Prop} (triple : Triple P m (fun a => Q (some a)) (Q none)) :
    Triple P (Proc.attempt m) Q E := by
  intro s start
  obtain ⟨answers, fails⟩ := triple s start
  refine ⟨fun o t same => ?_, fun t same => by cases same⟩
  obtain ⟨answer, rfl⟩ := Prod.mk.inj same
  cases Option.some.inj answer
  rcases result : m.exec s with ⟨_ | a, t⟩
  · exact fails t result
  · exact answers a t result

theorem Triple.mono (triple : Triple P m Q E) (start : ∀ s, P' s → P s) (answers : ∀ a s, Q a s → Q' a s)
    (fails : ∀ s, E s → E' s) : Triple P' m Q' E' := by
  intro s holds
  obtain ⟨answer, fail⟩ := triple s (start s holds)
  exact ⟨fun a t same => answers a t (answer a t same), fun t same => fails t (fail t same)⟩

variable {s : S}

/-- What a computation leaves in either case. -/
theorem Triple.state (triple : Triple P m Q E) (answers : ∀ a s, Q a s → E s) (start : P s) : E (m.exec s).2 := by
  rcases result : m.exec s with ⟨_ | a, t⟩
  · exact (triple s start).2 t result
  · exact answers a t ((triple s start).1 a t result)

/-- What it leaves when it answers. -/
theorem Triple.answer (triple : Triple P m Q E) (start : P s) (answered : (m.exec s).1 = some a) : Q a (m.exec s).2 :=
  (triple s start).1 a (m.exec s).2 (Prod.ext answered rfl)

/-- What it leaves when it fails. -/
theorem Triple.failure (triple : Triple P m Q E) (start : P s) (failed : (m.exec s).1 = none) : E (m.exec s).2 :=
  (triple s start).2 (m.exec s).2 (Prod.ext failed rfl)

end

/-- An invariant of a computation, whether it answers or fails. -/
def Keeps (I : S → Prop) (m : Proc S α) : Prop := Triple I m (fun _ => I) I

section
variable {I : S → Prop}

variable {m : Proc S α}

theorem Keeps.of_state (keep : ∀ s, I s → I (m.exec s).2) : Keeps I m := by
  intro s holds
  have after := keep s holds
  exact ⟨fun a t same => by rwa [same] at after, fun t same => by rwa [same] at after⟩

theorem Keeps.bind (first : Keeps I m) (rest : ∀ a, Keeps I (f a)) : Keeps I (m >>= f) := Triple.bind first rest

/-- A step that keeps `I` may come first where a failure only asks for less. -/
theorem Keeps.leads {E : S → Prop} (keep : Keeps I m) (fails : ∀ s, I s → E s) : Triple I m (fun _ => I) E :=
  Triple.mono keep (fun _ holds => holds) (fun _ _ holds => holds) fails

theorem Keeps.pure (a : α) : Keeps I (Pure.pure a : Proc S α) := Triple.pure fun _ holds => holds

theorem Keeps.lift (o : Option α) : Keeps I (Proc.lift o : Proc S α) :=
  Triple.lift (fun _ _ _ holds => holds) fun _ _ holds => holds

theorem Keeps.guard (check : Bool) : Keeps I (Proc.guard check) :=
  Triple.guard (fun _ _ holds => holds) fun _ _ holds => holds

theorem Keeps.when {c : Bool} {m : Proc S Unit} (keep : Keeps I m) : Keeps I (Proc.when c m) :=
  Triple.when (fun _ => keep) fun _ holds => holds

theorem Keeps.read (f : S → Option α) : Keeps I (Proc.read f) :=
  Triple.read (fun _ _ _ holds => holds) fun _ _ holds => holds

theorem Keeps.modify {f : S → S} (keep : ∀ s, I s → I (f s)) : Keeps I (Proc.modify f) := Triple.modify keep

theorem Keeps.write {outcome : Outcome} {f : S → S} (keep : ∀ s, I s → I (f s)) : Keeps I (Proc.write outcome f) :=
  Triple.write (fun s _ => keep s) (fun _ _ holds => holds) fun s _ => keep s

theorem Keeps.attempt (keep : Keeps I m) : Keeps I (Proc.attempt m) := Triple.attempt keep

end

/-- From the states with `I` two computations do the same, and an answer leaves `I`. -/
structure Agrees (I E : S → Prop) (m m' : Proc S α) : Prop where
  same : ∀ s, I s → m.exec s = m'.exec s
  keeps : Triple I m (fun _ => I) E

section
variable {I E : S → Prop}

theorem Agrees.refl {m : Proc S α} (keeps : Triple I m (fun _ => I) E) : Agrees I E m m := ⟨fun _ _ => rfl, keeps⟩

theorem Agrees.bind {m m' : Proc S α} {f' : α → Proc S β} (first : Agrees I E m m') (rest : ∀ a, Agrees I E (f a) (f' a)) :
    Agrees I E (m >>= f) (m' >>= f') := by
  refine ⟨fun s start => ?_, Triple.bind first.keeps fun a => (rest a).keeps⟩
  rw [exec_bind, exec_bind, ← first.same s start]
  rcases result : m.exec s with ⟨_ | a, s'⟩
  · rfl
  · exact (rest a).same s' ((first.keeps s start).1 a s' result)

end

end Proc
