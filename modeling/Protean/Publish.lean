import Mathlib.Data.List.Sort
import Mathlib.Data.List.TakeWhile

/- Several parties keep one published list: each reads what is on record, draws
the next number, and publishes what it has read under that number. -/
namespace Publish

inductive Act (I X : Type*)
  | record (i : I) (x : X)
  | list (i : I)
  | draw (i : I)
  | publish (i : I)
  deriving DecidableEq, Repr

variable {I X : Type*}

def drawers (log : List (Act I X)) : List I :=
  log.filterMap fun
    | .draw i => some i
    | _ => none

def publishers (log : List (Act I X)) : List I :=
  log.filterMap fun
    | .publish i => some i
    | _ => none

def records (log : List (Act I X)) : List X :=
  log.filterMap fun
    | .record _ x => some x
    | _ => none

@[simp] theorem drawers_concat (log : List (Act I X)) (a : Act I X) :
    drawers (log ++ [a]) = drawers log ++ drawers [a] := List.filterMap_append

@[simp] theorem publishers_concat (log : List (Act I X)) (a : Act I X) :
    publishers (log ++ [a]) = publishers log ++ publishers [a] := List.filterMap_append

variable [DecidableEq I]

def Act.lists (i : I) : Act I X → Bool
  | .list j => j = i
  | _ => false

/-- What was recorded after a party has read. -/
def since (log : List (Act I X)) (i : I) : List X := records (log.dropWhile fun a => !a.lists i)

/-- The numbers are used in the order in which they were drawn. -/
def InOrder (log : List (Act I X)) : Prop := publishers log = drawers log

/-- Nothing was recorded after the last party to publish had read. -/
def Fresh (log : List (Act I X)) : Prop := ∀ i, (publishers log).getLast? = some i → since log i = []

instance (log : List (Act I X)) : Decidable (InOrder log) := inferInstanceAs (Decidable (_ = _))

instance [DecidableEq X] (log : List (Act I X)) : Decidable (Fresh log) :=
  inferInstanceAs (Decidable (∀ i ∈ (publishers log).getLast?, since log i = []))

/-- The number that a party has drawn. -/
def number (base : Nat) (log : List (Act I X)) (i : I) : Nat := base + (drawers log).idxOf i + 1

/-- Whether a party has read. -/
def Listed (log : List (Act I X)) (i : I) : Prop := .list i ∈ log

section
variable {log : List (Act I X)} {i : I}

theorem dropWhile_of_listed (listed : Listed log i) : log.dropWhile (fun a => !a.lists i) ≠ [] := by
  intro empty
  have none := List.dropWhile_eq_nil_iff.mp empty _ listed
  simp [Act.lists] at none

theorem since_concat (listed : Listed log i) (a : Act I X) : since (log ++ [a]) i = since log i ++ records [a] := by
  rw [since, since, List.dropWhile_append, if_neg (by simpa using dropWhile_of_listed listed)]
  exact List.filterMap_append

theorem since_list (unlisted : ¬ Listed log i) : since (log ++ [.list i]) i = [] := by
  have before : log.dropWhile (fun a => !a.lists i) = [] := by
    refine List.dropWhile_eq_nil_iff.mpr fun a member => ?_
    cases a with
    | list j =>
      have other : j ≠ i := fun same => unlisted (same ▸ member)
      simp [Act.lists, other]
    | _ => rfl
  rw [since, List.dropWhile_append, if_pos (by rw [before]; rfl)]
  simp [Act.lists, records]

theorem number_concat {a : Act I X} (drawn : i ∈ drawers log) (base : Nat) :
    number base (log ++ [a]) i = number base log i := by
  rw [number, number, drawers_concat, List.idxOf_append_of_mem drawn]

theorem number_draw (undrawn : i ∉ drawers log) (base : Nat) :
    number base (log ++ [.draw i]) i = base + (drawers log).length + 1 := by
  rw [number, drawers_concat, List.idxOf_append_of_notMem undrawn]
  simp [drawers]

end

theorem map_idxOf {l : List I} (nodup : l.Nodup) : l.map l.idxOf = List.range l.length := by
  refine List.ext_getElem (by simp) fun k inside _ => ?_
  rw [List.getElem_map, List.getElem_range]
  exact nodup.idxOf_getElem k _

/-- Positions that increase all the way are those of the list itself. -/
theorem pairwise_idxOf_iff {l l' : List I} (perm : l'.Perm l) (nodup : l.Nodup) :
    (l'.map l.idxOf).Pairwise (· < ·) ↔ l' = l := by
  constructor
  · intro increasing
    have range : l'.map l.idxOf = List.range l.length := by
      refine List.Perm.eq_of_pairwise (fun _ _ _ _ less more => absurd less (Nat.lt_asymm more)) increasing
        List.pairwise_lt_range ?_
      rw [← map_idxOf nodup]
      exact perm.map _
    refine List.ext_getElem perm.length_eq fun k inside inside' => ?_
    have place : l.idxOf l'[k] = k := by
      have here := List.getElem_of_eq range (by simpa using inside)
      rwa [List.getElem_map, List.getElem_range] at here
    have member : l'[k] ∈ l := perm.subset (List.getElem_mem inside)
    have back : l[l.idxOf l'[k]]? = some l'[k] := List.getElem?_idxOf member
    rw [place, List.getElem?_eq_getElem inside'] at back
    exact (Option.some.inj back).symm
  · rintro rfl
    rw [map_idxOf nodup]
    exact List.pairwise_lt_range

/-- The published numbers increase exactly if they are used in order. -/
theorem increasing_iff {log : List (Act I X)} (perm : (publishers log).Perm (drawers log)) (nodup : (drawers log).Nodup)
    (base : Nat) : ((publishers log).map (number base log)).Pairwise (· < ·) ↔ InOrder log := by
  rw [InOrder, ← pairwise_idxOf_iff perm nodup, List.pairwise_map, List.pairwise_map]
  unfold number
  simp only [Nat.add_lt_add_iff_right, Nat.add_lt_add_iff_left]

end Publish
