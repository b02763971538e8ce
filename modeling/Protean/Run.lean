import Mathlib.Data.List.Infix

/- The runs of a machine that takes one event at a time. -/
namespace Run

variable {S E : Type*} {step : S → E → S} {s : S}

def after (step : S → E → S) (s : S) (es : List E) : S := es.foldl step s

@[simp] theorem after_nil : after step s [] = s := rfl

@[simp] theorem after_cons (e : E) (es : List E) :
    after step s (e :: es) = after step (step s e) es := rfl

theorem after_append (es fs : List E) : after step s (es ++ fs) = after step (after step s es) fs := by
  simp [after, List.foldl_append]

theorem after_concat (es : List E) (e : E) :
    after step s (es ++ [e]) = step (after step s es) e := by
  simp [after_append]

/-- What holds at the start and is kept by every event holds after every run. -/
theorem invariant (Inv : S → Prop) (keep : ∀ s e, Inv s → Inv (step s e)) (start : Inv s) (es : List E) :
    Inv (after step s es) := by
  induction es generalizing s with
  | nil => exact start
  | cons e es ih => exact ih (keep s e start)

/-- Every event of the run meets `ok` in the state in which it is taken. -/
def Meets (step : S → E → S) (ok : S → E → Prop) : S → List E → Prop
  | _, [] => True
  | s, e :: es => ok s e ∧ Meets step ok (step s e) es

variable {ok : S → E → Prop} {es : List E}

/-- What holds at the start and is kept by every event that meets `ok` holds
after every run of such events. -/
theorem Meets.invariant (Inv : S → Prop) (keep : ∀ s e, Inv s → ok s e → Inv (step s e)) (start : Inv s)
    (meets : Meets step ok s es) : Inv (after step s es) := by
  induction es generalizing s with
  | nil => exact start
  | cons e es ih => exact ih (keep s e start meets.1) meets.2

/-- What follows from the invariant and `ok` for each event holds of every event of the run. -/
theorem Meets.imp {good : S → E → Prop} (Inv : S → Prop) (keep : ∀ s e, Inv s → ok s e → Inv (step s e))
    (gives : ∀ s e, Inv s → ok s e → good s e) (start : Inv s) (meets : Meets step ok s es) : Meets step good s es := by
  induction es generalizing s with
  | nil => trivial
  | cons e es ih => exact ⟨gives s e start meets.1, ih (keep s e start meets.1) meets.2⟩

variable {Inv : S → Prop}

/-- Where, for the events with `given`, `ok` is exactly what keeps an invariant, a run of such
events meets it exactly if the invariant holds all the way. -/
theorem Meets.throughout_iff_given {given : S → E → Prop} (exact : ∀ s e, Inv s → given s e → (Inv (step s e) ↔ ok s e))
    (start : Inv s) (all : Meets step given s es) :
    (∀ first, first <+: es → Inv (after step s first)) ↔ Meets step ok s es := by
  induction es generalizing s with
  | nil =>
    refine iff_of_true (fun first part => ?_) trivial
    rw [List.prefix_nil.mp part]
    exact start
  | cons e es ih =>
    constructor
    · intro holds
      have next : Inv (step s e) := holds [e] ⟨es, rfl⟩
      refine ⟨(exact s e start all.1).mp next, (ih next all.2).mp fun first part => ?_⟩
      exact holds (e :: first) (List.cons_prefix_cons.mpr ⟨rfl, part⟩)
    · rintro ⟨meets, rest⟩ first part
      cases first with
      | nil => exact start
      | cons e' first =>
        obtain ⟨rfl, tail⟩ := List.cons_prefix_cons.mp part
        exact (ih ((exact s e' start all.1).mpr meets) all.2).mpr rest first tail

theorem Meets.of_forall (always : ∀ s e, ok s e) (s : S) (es : List E) : Meets step ok s es := by
  induction es generalizing s with
  | nil => trivial
  | cons e es ih => exact ⟨always s e, ih (step s e)⟩

/-- Where `ok` is exactly what keeps an invariant, a run meets it exactly if the
invariant holds all the way. -/
theorem Meets.throughout_iff (exact : ∀ s e, Inv s → (Inv (step s e) ↔ ok s e)) (start : Inv s) :
    (∀ first, first <+: es → Inv (after step s first)) ↔ Meets step ok s es :=
  throughout_iff_given (fun s e holds _ => exact s e holds) start
    (of_forall (fun _ _ => trivial) s es)

theorem Meets.append {fs : List E} :
    Meets step ok s (es ++ fs) ↔ Meets step ok s es ∧ Meets step ok (after step s es) fs := by
  induction es generalizing s with
  | nil => simp [Meets]
  | cons e es ih => simp [Meets, ih, and_assoc]

theorem Meets.of_prefix {first : List E} (meets : Meets step ok s es) (part : first <+: es) : Meets step ok s first := by
  obtain ⟨rest, rfl⟩ := part
  exact (Meets.append.mp meets).1

/-- The same, beside what such events keep in any case. -/
theorem Meets.throughout_iff_beside {given : S → E → Prop} {Aux : S → Prop}
    (keeps : ∀ s e, Aux s → given s e → Aux (step s e)) (exact : ∀ s e, Aux s → Inv s → given s e → (Inv (step s e) ↔ ok s e))
    (aux : Aux s) (start : Inv s) (all : Meets step given s es) :
    (∀ first, first <+: es → Inv (after step s first)) ↔ Meets step ok s es := by
  have both : ∀ s e, Aux s ∧ Inv s → given s e → (Aux (step s e) ∧ Inv (step s e) ↔ ok s e) := by
    rintro s e ⟨aux, inv⟩ holds
    rw [and_iff_right (keeps s e aux holds)]
    exact exact s e aux inv holds
  rw [← throughout_iff_given both ⟨aux, start⟩ all]
  refine forall₂_congr fun first part => (and_iff_right ?_).symm
  exact (all.of_prefix part).invariant Aux keeps aux

/-- What every event meets in the state in which it is taken. -/
theorem Meets.each_iff : (∀ first e, first ++ [e] <+: es → ok (after step s first) e) ↔ Meets step ok s es := by
  induction es generalizing s with
  | nil => exact iff_of_true (fun first e part => absurd (List.prefix_nil.mp part) (by simp)) trivial
  | cons e es ih =>
    constructor
    · intro all
      refine ⟨all [] e ⟨es, rfl⟩, ih.mp fun first e' part => ?_⟩
      exact all (e :: first) e' (List.cons_prefix_cons.mpr ⟨rfl, part⟩)
    · rintro ⟨here, rest⟩ first e' part
      cases first with
      | nil =>
        obtain ⟨rfl, -⟩ := List.cons_prefix_cons.mp part
        exact here
      | cons e'' first =>
        obtain ⟨rfl, tail⟩ := List.cons_prefix_cons.mp part
        exact ih.mpr rest first e' tail

/-- What was not so at the start has come about by some event, and no later one ends it. -/
theorem origin {P : S → Prop} (absent : ¬ P s) (present : P (after step s es)) :
    ∃ pre e post, es = pre ++ e :: post ∧ ¬ P (after step s pre) ∧ P (step (after step s pre) e) ∧ ∀ e' ∈ post, ∃ t, P (step t e') := by
  induction es using List.reverseRecOn with
  | nil => exact absurd present absent
  | append_singleton es e ih =>
    rw [after_concat] at present
    by_cases before : P (after step s es)
    · obtain ⟨pre, e', post, rfl, first, here, later⟩ := ih before
      refine ⟨pre, e', post ++ [e], by simp, first, here, fun e'' member => ?_⟩
      rcases List.mem_append.mp member with old | last
      · exact later e'' old
      · exact ⟨_, List.mem_singleton.mp last ▸ present⟩
    · exact ⟨es, e, [], rfl, before, present, nofun⟩

/-- A step that comes nearer to an end and keeps what will be there, made over and over. -/
theorem replicate {P : S → Prop} {m : S → Nat} {O : Type*} {f : S → O} {e : E}
    (each : ∀ s, P s → P (step s e) ∧ m (step s e) ≤ m s - 1 ∧ f (step s e) = f s) (start : P s) (n : Nat) :
    m (after step s (List.replicate n e)) ≤ m s - n ∧ f (after step s (List.replicate n e)) = f s := by
  induction n generalizing s with
  | zero => exact ⟨Nat.le_refl _, rfl⟩
  | succ n ih =>
    obtain ⟨holds, nearer, same⟩ := each s start
    obtain ⟨bound, kept⟩ := ih holds
    exact ⟨bound.trans (by omega), kept.trans same⟩

end Run
