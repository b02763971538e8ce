import Mathlib.Logic.Function.Basic

/- Lists that belong to holders and are put in force at the places the holders
have. -/
namespace Placement

variable {K A D : Type}

/-- Lists are compared by what is in them. -/
def Same (x y : List D) : Prop := ∀ d, d ∈ x ↔ d ∈ y

theorem Same.refl (x : List D) : Same x x := fun _ => Iff.rfl

theorem Same.symm {x y : List D} (same : Same x y) : Same y x := fun d => (same d).symm

theorem Same.trans {x y z : List D} (first : Same x y) (second : Same y z) : Same x z :=
  fun d => (first d).trans (second d)

theorem Same.eq_nil {y : List D} (same : Same [] y) : y = [] :=
  List.eq_nil_iff_forall_not_mem.mpr fun d member => List.not_mem_nil ((same d).mpr member)

/-- Where the holders are, what they should have and what is in force. -/
structure View (K A D : Type) where
  place : K → Option A
  wanted : K → List D
  inForce : A → List D

/-- What is in force follows the holders. -/
structure Followed (v : View K A D) : Prop where
  held : ∀ q a, v.place q = some a → Same (v.inForce a) (v.wanted q)
  free : ∀ a, (∀ q, v.place q ≠ some a) → v.inForce a = []

section
variable {v : View K A D} (followed : Followed v)

include followed

theorem Followed.nil_iff {k : K} {a : A} (there : v.place k = some a) : v.inForce a = [] ↔ v.wanted k = [] := by
  have same := followed.held k a there
  constructor
  · intro none
    rw [none] at same
    exact same.eq_nil
  · intro none
    rw [none] at same
    exact same.symm.eq_nil

/-- Only what is in force changes, and only where there are holders. -/
theorem Followed.enforce_iff {inForce : A → List D} (kept : ∀ a, (∀ q, v.place q ≠ some a) → inForce a = v.inForce a) :
    Followed { v with inForce := inForce } ↔ ∀ a, Same (inForce a) (v.inForce a) := by
  constructor
  · intro after a
    by_cases held : ∃ q, v.place q = some a
    · obtain ⟨q, there⟩ := held
      exact (after.held q a there).trans (followed.held q a there).symm
    · rw [kept a fun q there => held ⟨q, there⟩]
      exact .refl _
  · intro same
    refine ⟨fun q a there => (same a).trans (followed.held q a there), fun a free => ?_⟩
    exact (kept a free).trans (followed.free a free)

section
variable [DecidableEq A]

/-- A list is put in force at a place, and becomes what some want. -/
theorem Followed.assign_iff (a : A) (named : K → Prop) [DecidablePred named] (list : List D) :
    Followed { v with
        wanted := fun q => if named q then list else v.wanted q
        inForce := Function.update v.inForce a list } ↔
      ((∃ q, v.place q = some a) ∨ list = []) ∧
        ∀ q b, v.place q = some b → ((b = a ↔ named q) ∨ Same list (v.wanted q)) := by
  constructor
  · intro after
    refine ⟨?_, fun q b there => ?_⟩
    · by_cases held : ∃ q, v.place q = some a
      · exact .inl held
      · have none := after.free a fun q there => held ⟨q, there⟩
        dsimp only at none
        rw [Function.update_self] at none
        exact .inr none
    · have same := after.held q b there
      dsimp only at same
      by_cases here : b = a
      · by_cases own : named q
        · exact .inl (iff_of_true here own)
        · rw [if_neg own, here, Function.update_self] at same
          exact .inr same
      · by_cases own : named q
        · rw [if_pos own, Function.update_of_ne here] at same
          exact .inr (same.symm.trans (followed.held q b there))
        · exact .inl (iff_of_false here own)
  · rintro ⟨held, exact⟩
    refine ⟨fun q b there => ?_, fun b free => ?_⟩
    · dsimp only at there ⊢
      have before := followed.held q b there
      rcases exact q b there with agree | same
      · by_cases here : b = a
        · rw [if_pos (agree.mp here), here, Function.update_self]
          exact .refl _
        · rw [if_neg fun own => here (agree.mpr own), Function.update_of_ne here]
          exact before
      · by_cases here : b = a
        · rw [here, Function.update_self]
          split
          · exact .refl _
          · exact same
        · rw [Function.update_of_ne here]
          split
          · exact before.trans same.symm
          · exact before
    · dsimp only at free ⊢
      by_cases here : b = a
      · rw [here, Function.update_self]
        rcases held with ⟨q, there⟩ | none
        · exact absurd (here ▸ there) (free q)
        · exact none
      · rw [Function.update_of_ne here]
        exact followed.free b free

end

variable [DecidableEq K]

/-- A holder may leave a place that others have too, or where it wants nothing. -/
def Leaves (v : View K A D) (k : K) : Prop :=
  ∀ a, v.place k = some a → (∃ q, q ≠ k ∧ v.place q = some a) ∨ v.wanted k = []

/-- A place that only one holder has is free after it. -/
theorem Followed.leaves_iff {k : K} {place : Option A} (moved : place ≠ v.place k) :
    Leaves v k ↔ ∀ a, (∀ q, Function.update v.place k place q ≠ some a) → v.inForce a = [] := by
  constructor
  · intro leaves a free
    by_cases held : ∃ q, v.place q = some a
    · obtain ⟨q, there⟩ := held
      have own : q = k := by
        by_contra other
        exact free q (by rw [Function.update_of_ne other, there])
      subst own
      rcases leaves a there with ⟨q', other, also⟩ | none
      · exact absurd (by rw [Function.update_of_ne other, also]) (free q')
      · exact (followed.nil_iff there).mpr none
    · exact followed.free a fun q there => held ⟨q, there⟩
  · intro free a there
    by_cases shared : ∃ q, q ≠ k ∧ v.place q = some a
    · exact .inl shared
    · refine .inr ((followed.nil_iff there).mp (free a fun q => ?_))
      by_cases own : q = k
      · rw [own, Function.update_self]
        exact fun same => moved (same.trans there.symm)
      · rw [Function.update_of_ne own]
        exact fun also => shared ⟨q, own, also⟩

/-- A holder goes to another place, or comes or goes altogether. -/
theorem Followed.move_iff (k : K) (place : Option A) :
    Followed { v with place := Function.update v.place k place } ↔
      place = v.place k ∨ (∀ b, place = some b → Same (v.inForce b) (v.wanted k)) ∧ Leaves v k := by
  by_cases stays : place = v.place k
  · refine iff_of_true ?_ (.inl stays)
    rw [stays, Function.update_eq_self]
    exact followed
  · rw [or_iff_right stays, followed.leaves_iff stays]
    constructor
    · intro after
      refine ⟨fun b there => after.held k b ?_, after.free⟩
      rw [← there]
      exact Function.update_self _ _ _
    · rintro ⟨arrives, free⟩
      refine ⟨fun q a there => ?_, free⟩
      dsimp only at there ⊢
      by_cases own : q = k
      · rw [own, Function.update_self] at there
        rw [own]
        exact arrives a there
      · rw [Function.update_of_ne own] at there
        exact followed.held q a there

/-- A holder goes, and with it what is wanted by some. -/
theorem Followed.remove_iff (k : K) (gone : K → Prop) [DecidablePred gone] :
    Followed { v with
        place := Function.update v.place k none
        wanted := fun q => if gone q then [] else v.wanted q } ↔
      Leaves v k ∧ ∀ q, q ≠ k → gone q → (v.place q).isSome = true → v.wanted q = [] := by
  have free : (∀ a, (∀ q, Function.update v.place k none q ≠ some a) → v.inForce a = []) ↔ Leaves v k := by
    by_cases absent : v.place k = none
    · refine iff_of_true (fun a free => followed.free a fun q => ?_) fun a there => absurd (absent.symm.trans there) nofun
      have same := free q
      rwa [← absent, Function.update_eq_self] at same
    · exact (followed.leaves_iff (Ne.symm absent)).symm
  constructor
  · intro after
    refine ⟨free.mp after.free, fun q other also there => ?_⟩
    obtain ⟨b, there⟩ := Option.isSome_iff_exists.mp there
    have none := after.held q b (by dsimp only; rw [Function.update_of_ne other, there])
    dsimp only at none
    rw [if_pos also] at none
    exact (followed.nil_iff there).mp none.symm.eq_nil
  · rintro ⟨safe, nothing⟩
    refine ⟨fun q a there => ?_, free.mpr safe⟩
    dsimp only at there ⊢
    by_cases own : q = k
    · rw [own, Function.update_self] at there
      cases there
    · rw [Function.update_of_ne own] at there
      by_cases also : gone q
      · rw [if_pos also, (followed.nil_iff there).mpr (nothing q own also (by rw [there]; rfl))]
        exact .refl _
      · rw [if_neg also]
        exact followed.held q a there

/-- A holder gets a new name. -/
theorem Followed.rename_iff {old new : K} (absent : v.place new = none) :
    Followed { v with place := Function.update (Function.update v.place old none) new (v.place old) } ↔
      ∀ a, v.place old = some a → Same (v.wanted old) (v.wanted new) := by
  constructor
  · intro after a there
    have arrived := after.held new a ((Function.update_self _ _ _).trans there)
    exact (followed.held old a there).symm.trans arrived
  · intro same
    refine ⟨fun q a there => ?_, fun a free => followed.free a fun q there => ?_⟩
    · dsimp only at there ⊢
      by_cases isNew : q = new
      · rw [isNew, Function.update_self] at there
        rw [isNew]
        exact (followed.held old a there).trans (same a there)
      · rw [Function.update_of_ne isNew] at there
        by_cases isOld : q = old
        · rw [isOld, Function.update_self] at there
          cases there
        · rw [Function.update_of_ne isOld] at there
          exact followed.held q a there
    · by_cases isOld : q = old
      · exact free new (by dsimp only; rw [Function.update_self, ← isOld, there])
      · refine free q ?_
        have isNew : q ≠ new := by
          rintro rfl
          cases absent.symm.trans there
        dsimp only
        rw [Function.update_of_ne isNew, Function.update_of_ne isOld, there]

end

end Placement
