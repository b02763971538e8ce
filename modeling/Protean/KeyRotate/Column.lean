import Protean.KeyRotate.Rotate

namespace Protean.KeyRotate

/-- The row holds a blob that can be a sealing. -/
def Long {κ : Type} (c : Column) (r : Row κ) : Prop := ∃ blob, r.blob c = some blob ∧ minSealedBlobLen ≤ blob.length

instance {κ : Type} (c : Column) (r : Row κ) : Decidable (Long c r) :=
  match here : r.blob c with
  | none => isFalse fun ⟨_, found, _⟩ => nomatch here.symm.trans found
  | some blob => decidable_of_iff (minSealedBlobLen ≤ blob.length)
      ⟨fun long => ⟨blob, here, long⟩, fun ⟨_, found, long⟩ => Option.some.inj (here.symm.trans found) ▸ long⟩

theorem except_bind_eq_ok {ε α β : Type} {x : Except ε α} {f : α → Except ε β} {b : β} :
    (x >>= f) = .ok b ↔ ∃ a, x = .ok a ∧ f a = .ok b := by
  cases x with
  | error e => exact ⟨fun failed => (by cases failed), fun ⟨a, ok, _⟩ => (by cases ok)⟩
  | ok a => exact ⟨fun rest => ⟨a, rfl, rest⟩, fun ⟨_, ok, rest⟩ => (by cases ok; exact rest)⟩

section
variable {κ : Type} {oldEnc newEnc : Encryptor} {sc : SealedColumn}

/-- A row with a plaintext to carry over. -/
def Opened (oldEnc : Encryptor) (sc : SealedColumn) (r : Row κ) (p : PendingRow κ) : Prop :=
  p.keyVals = keyVals sc r ∧
    ∃ blob, r.blob sc.column = some blob ∧ minSealedBlobLen ≤ blob.length ∧ oldEnc.openBlob blob = some p.plaintext

variable {rows : List (Row κ)}

/-- A scan that goes through has opened every long blob, and no other. -/
theorem scan_pending {acc found : Scan κ} (ok : scan oldEnc sc acc rows = .ok found) :
    (∀ p, p ∈ found.pending ↔ p ∈ acc.pending ∨ ∃ r ∈ rows, Opened oldEnc sc r p) ∧
      ∀ r ∈ rows, Long sc.column r → ∃ p ∈ found.pending, Opened oldEnc sc r p := by
  induction rows generalizing acc with
  | nil =>
    cases ok
    simp
  | cons r rows ih =>
    have skipped : ∀ acc' : Scan κ, acc'.pending = acc.pending → ¬Long sc.column r →
        scan oldEnc sc acc' rows = .ok found →
        (∀ p, p ∈ found.pending ↔ p ∈ acc.pending ∨ ∃ q ∈ r :: rows, Opened oldEnc sc q p) ∧
          ∀ q ∈ r :: rows, Long sc.column q → ∃ p ∈ found.pending, Opened oldEnc sc q p := by
      intro acc' same short rest
      obtain ⟨members, opened⟩ := ih rest
      have none' : ∀ p, ¬Opened oldEnc sc r p := by
        rintro p ⟨-, blob, here, long, -⟩
        exact short ⟨blob, here, long⟩
      refine ⟨fun p => ?_, fun q inside long => ?_⟩
      · rw [members, same]
        simp [none']
      · rcases List.mem_cons.mp inside with rfl | inside
        · exact absurd long short
        · exact opened q inside long
    unfold scan at ok
    split at ok
    · rename_i null
      refine skipped { acc with skippedNull := acc.skippedNull + 1 } rfl ?_ ok
      rintro ⟨blob, here, -⟩
      cases null.symm.trans here
    · rename_i blob here
      split at ok
      · rename_i short
        refine skipped { acc with skippedEmpty := acc.skippedEmpty + 1 } rfl ?_ ok
        rintro ⟨blob', here', long⟩
        cases here.symm.trans here'
        omega
      · rename_i long
        split at ok
        · cases ok
        · rename_i plaintext opens
          obtain ⟨members, opened⟩ := ih ok
          have own : Opened oldEnc sc r ⟨keyVals sc r, plaintext⟩ := ⟨rfl, blob, here, Nat.le_of_not_lt long, opens⟩
          have only : ∀ p, Opened oldEnc sc r p → p = ⟨keyVals sc r, plaintext⟩ := by
            rintro ⟨vals, text⟩ ⟨same, blob', here', -, opens'⟩
            cases here.symm.trans here'
            cases opens.symm.trans opens'
            cases same
            rfl
          refine ⟨fun p => ?_, fun q inside long => ?_⟩
          · rw [members]
            simp only [List.mem_append, List.mem_cons, List.not_mem_nil, or_false, exists_eq_or_imp, or_assoc]
            refine or_congr_right (or_congr_left ⟨?_, only p⟩)
            rintro rfl
            exact own
          · rcases List.mem_cons.mp inside with rfl | inside
            · exact ⟨_, (members _).mpr (.inl (List.mem_append_right _ (List.mem_singleton.mpr rfl))), own⟩
            · exact opened q inside long

/-- A scan goes through when every long blob opens. -/
theorem scan_ok {acc : Scan κ} (readable : ∀ r ∈ rows, Long sc.column r → (r.blob sc.column).bind oldEnc.openBlob ≠ none) :
    ∃ found, scan oldEnc sc acc rows = .ok found := by
  induction rows generalizing acc with
  | nil => exact ⟨acc, rfl⟩
  | cons r rows ih =>
    have rest : ∀ q ∈ rows, Long sc.column q → (q.blob sc.column).bind oldEnc.openBlob ≠ none := fun q inside =>
      readable q (List.mem_cons_of_mem _ inside)
    unfold scan
    split
    · exact ih rest
    · rename_i blob here
      split
      · exact ih rest
      · rename_i long
        split
        · rename_i closed
          have opens := readable r List.mem_cons_self ⟨blob, here, Nat.le_of_not_lt long⟩
          rw [here] at opens
          exact absurd closed opens
        · exact ih rest

/-- What the updates leave in a row: the last blob written under its key columns. -/
def overwrite (sc : SealedColumn) (final : List κ → Option Bytes) (r : Row κ) : Row κ :=
  { r with blob := Function.update r.blob sc.column ((final (keyVals sc r)).or (r.blob sc.column)) }

/-- Nothing but the column changes. -/
structure Framed (c : Column) (f : Row κ → Row κ) : Prop where
  key : ∀ r, (f r).key = r.key
  blob : ∀ r c', c' ≠ c → (f r).blob c' = r.blob c'

theorem overwrite_framed (final : List κ → Option Bytes) : Framed sc.column (overwrite sc final) :=
  ⟨fun _ => rfl, fun _ _ other => Function.update_of_ne other ..⟩

theorem overwrite_blob (final : List κ → Option Bytes) (r : Row κ) :
    (overwrite sc final r).blob sc.column = (final (keyVals sc r)).or (r.blob sc.column) := Function.update_self ..

/-- What a rotated column holds under each value of the key columns. -/
structure Final (oldEnc newEnc : Encryptor) (sc : SealedColumn) (rows : List (Row κ)) (final : List κ → Option Bytes) :
    Prop where
  carried : ∀ r ∈ rows, Long sc.column r → ∃ blob plaintext, final (keyVals sc r) = some blob ∧
    (r.blob sc.column).bind oldEnc.openBlob = some plaintext ∧ newEnc.openBlob blob = some plaintext
  origin : ∀ vals blob, final vals = some blob → minSealedBlobLen ≤ blob.length ∧
    ∃ r ∈ rows, keyVals sc r = vals ∧ Long sc.column r

/-- Every long blob is carried over; any other one stays exactly when no long
one shares its key columns. -/
structure Turned (oldEnc newEnc : Encryptor) (sc : SealedColumn) (rows : List (Row κ)) (f : Row κ → Row κ) : Prop where
  carried : ∀ r ∈ rows, Long sc.column r → ∃ plaintext,
    (r.blob sc.column).bind oldEnc.openBlob = some plaintext ∧
      ((f r).blob sc.column).bind newEnc.openBlob = some plaintext
  kept_iff : ∀ r ∈ rows, ¬Long sc.column r → ((f r).blob sc.column = r.blob sc.column ↔
    ∀ q ∈ rows, keyVals sc q = keyVals sc r → ¬Long sc.column q)

theorem Final.turned {final : List κ → Option Bytes} (holds : Final oldEnc newEnc sc rows final) :
    Turned oldEnc newEnc sc rows (overwrite sc final) := by
  refine ⟨fun r member long => ?_, fun r member short => ?_⟩
  · obtain ⟨blob, plaintext, here, before, after⟩ := holds.carried r member long
    refine ⟨plaintext, before, ?_⟩
    rw [overwrite_blob, here]
    exact after
  · rw [overwrite_blob]
    constructor
    · intro same q inside vals long
      obtain ⟨blob, plaintext, here, -⟩ := holds.carried q inside long
      rw [vals] at here
      rw [here] at same
      exact short ⟨blob, same.symm, (holds.origin _ _ here).1⟩
    · intro alone
      cases here : final (keyVals sc r) with
      | none => rfl
      | some blob =>
        obtain ⟨-, q, inside, vals, long⟩ := holds.origin _ _ here
        exact absurd long (alone q inside vals)

end

section
variable {κ : Type} [DecidableEq κ] {w : World κ} {oldEnc newEnc : Encryptor} {sc : SealedColumn}

theorem overwrite_setWhere (final : List κ → Option Bytes) (vals : List κ) (blob : Bytes) (r : Row κ) :
    overwrite sc final (setWhere sc vals blob r) =
      overwrite sc (fun v => (final v).or (if v = vals then some blob else none)) r := by
  unfold setWhere
  split
  · rename_i same
    subst same
    simp [overwrite, keyVals]
  · rename_i other
    simp [overwrite, other]

variable {rows : List (Row κ)} {i : Nat} {ps : List (PendingRow κ)}

/-- Updates that go through overwrite each row with a sealing of one of the
plaintexts under its key columns, if there is one. -/
theorem rewrite_overwrites {rows' : List (Row κ)} (ok : rewrite w newEnc sc i ps rows = .ok rows') :
    ∃ final : List κ → Option Bytes, rows' = rows.map (overwrite sc final) ∧
      (∀ p ∈ ps, final p.keyVals ≠ none) ∧
      ∀ vals blob, final vals = some blob → ∃ p ∈ ps, p.keyVals = vals ∧ ∃ n, blob = newEnc.sealText n p.plaintext := by
  induction ps generalizing i rows with
  | nil =>
    cases ok
    refine ⟨fun _ => none, ?_, by simp, by simp⟩
    have same : ∀ r : Row κ, overwrite sc (fun _ => none) r = r := fun r => by simp [overwrite]
    rw [List.map_congr_left fun r _ => same r, List.map_id']
  | cons p ps ih =>
    unfold rewrite at ok
    split at ok
    · cases ok
    · rename_i n _
      split at ok
      · obtain ⟨final, rows_eq, covered, origin⟩ := ih ok
        refine ⟨fun v => (final v).or (if v = p.keyVals then some (newEnc.sealText n p.plaintext) else none), ?_, ?_, ?_⟩
        · rw [rows_eq, List.map_map]
          exact List.map_congr_left fun r _ => overwrite_setWhere final _ _ r
        · intro q inside
          rcases List.mem_cons.mp inside with rfl | inside
          · simp
          · simp [covered q inside]
        · intro vals blob same
          rcases Option.or_eq_some_iff.mp same with later | ⟨-, own⟩
          · obtain ⟨q, inside, rest⟩ := origin vals blob later
            exact ⟨q, List.mem_cons_of_mem _ inside, rest⟩
          · split at own
            · rename_i here
              exact ⟨p, List.mem_cons_self, here.symm, n, (Option.some.inj own).symm⟩
            · cases own
      · cases ok

/-- No call of the rotation of this column fails. -/
structure Calm (w : World κ) (sc : SealedColumn) : Prop where
  select : ∀ rows, w.select sc rows ≠ none
  draw : ∀ i, w.draw sc i ≠ none
  update : ∀ i, w.update sc i = true
  queryRow : ∀ i rows, rows ≠ [] → w.queryRow sc i rows ≠ none

theorem rewrite_ok (calm : Calm w sc) : ∃ rows', rewrite w newEnc sc i ps rows = .ok rows' := by
  induction ps generalizing i rows with
  | nil => exact ⟨rows, rfl⟩
  | cons p ps ih =>
    obtain ⟨n, drawn⟩ := Option.ne_none_iff_exists'.mp (calm.draw i)
    simp only [rewrite, drawn, calm.update i, if_true]
    exact ih

/-- A verify pass that goes through has seen every plaintext again. -/
theorem verify_seen (documented : w.Documented) (ok : verify w newEnc sc rows i ps = .ok ()) :
    ∀ p ∈ ps, ∃ r ∈ rows, keyVals sc r = p.keyVals ∧ (r.blob sc.column).bind newEnc.openBlob = some p.plaintext := by
  induction ps generalizing i with
  | nil => simp
  | cons p ps ih =>
    unfold verify at ok
    split at ok
    · cases ok
    · rename_i r found
      split at ok
      · cases ok
      · rename_i got opens
        split at ok
        · rename_i same
          intro q inside
          rcases List.mem_cons.mp inside with rfl | inside
          · obtain ⟨member, vals⟩ := List.mem_filter.mp (documented.queryRow _ _ _ _ found)
            exact ⟨r, member, of_decide_eq_true vals, same ▸ opens⟩
          · exact ih ok q inside
        · cases ok

theorem verify_ok (documented : w.Documented) (calm : Calm w sc) (present : ∀ p ∈ ps, ∃ r ∈ rows, keyVals sc r = p.keyVals)
    (opens : ∀ p ∈ ps, ∀ r ∈ rows, keyVals sc r = p.keyVals →
      (r.blob sc.column).bind newEnc.openBlob = some p.plaintext) : verify w newEnc sc rows i ps = .ok () := by
  induction ps generalizing i with
  | nil => rfl
  | cons p ps ih =>
    obtain ⟨r, member, vals⟩ := present p List.mem_cons_self
    have inside : r ∈ rows.filter fun r => keyVals sc r = p.keyVals := List.mem_filter.mpr ⟨member, decide_eq_true vals⟩
    obtain ⟨q, found⟩ := Option.ne_none_iff_exists'.mp (calm.queryRow i _ (List.ne_nil_of_mem inside))
    obtain ⟨member', vals'⟩ := List.mem_filter.mp (documented.queryRow _ _ _ _ found)
    have text := opens p List.mem_cons_self q member' (of_decide_eq_true vals')
    simp only [verify, found, text, if_true]
    exact ih (fun p inside => present p (List.mem_cons_of_mem _ inside)) fun p inside =>
      opens p (List.mem_cons_of_mem _ inside)

theorem rotateColumn_final (documented : w.Documented) (sealing : newEnc.Documented) {rows' : List (Row κ)}
    {cr : ColumnReport} (ok : rotateColumn w oldEnc newEnc sc rows = .ok (cr, rows')) :
    ∃ final, rows' = rows.map (overwrite sc final) ∧ Final oldEnc newEnc sc rows final := by
  unfold rotateColumn at ok
  split at ok
  · cases ok
  rename_i selected select
  obtain ⟨found, scanned, ok⟩ := except_bind_eq_ok.mp ok
  obtain ⟨rewritten, written, ok⟩ := except_bind_eq_ok.mp ok
  obtain ⟨⟨⟩, verified, ok⟩ := except_bind_eq_ok.mp ok
  cases ok
  have perm := documented.select _ _ _ select
  obtain ⟨members, opened⟩ := scan_pending scanned
  obtain ⟨final, rfl, covered, origin⟩ := rewrite_overwrites written
  refine ⟨final, rfl, fun r member long => ?_, fun vals blob here => ?_⟩
  · obtain ⟨p, inside, vals, blob, here, -, opens⟩ := opened r (perm.mem_iff.mpr member) long
    obtain ⟨last, there⟩ := Option.ne_none_iff_exists'.mp (covered p inside)
    -- the verify pass read some row of these key columns, and they all hold the last blob
    obtain ⟨seen, inside', vals', text⟩ := verify_seen documented verified p inside
    obtain ⟨q, -, rfl⟩ := List.mem_map.mp inside'
    have vals'' : keyVals sc q = p.keyVals := vals'
    rw [overwrite_blob, vals'', there] at text
    exact ⟨last, p.plaintext, vals ▸ there, by rw [here]; exact opens, text⟩
  · obtain ⟨p, inside, vals', n, rfl⟩ := origin vals blob here
    obtain ⟨r, member, own, blob', there, long, -⟩ := ((members p).mp inside).resolve_left List.not_mem_nil
    exact ⟨sealing.long n _, r, perm.mem_iff.mp member, own.symm.trans vals', blob', there, long⟩

/-- The rotation of a readable column goes through exactly when the long blobs
that share their key columns hold one plaintext. -/
theorem rotateColumn_ok_iff (documented : w.Documented) (sealing : newEnc.Documented) (calm : Calm w sc)
    (readable : ∀ r ∈ rows, Long sc.column r → (r.blob sc.column).bind oldEnc.openBlob ≠ none) :
    (∃ out, rotateColumn w oldEnc newEnc sc rows = .ok out) ↔
      ∀ q ∈ rows, ∀ r ∈ rows, keyVals sc q = keyVals sc r → Long sc.column q → Long sc.column r →
        (q.blob sc.column).bind oldEnc.openBlob = (r.blob sc.column).bind oldEnc.openBlob := by
  constructor
  · rintro ⟨⟨cr, rows'⟩, ok⟩ q inside r member vals longQ longR
    obtain ⟨final, -, holds⟩ := rotateColumn_final documented sealing ok
    obtain ⟨blob, text, here, before, after⟩ := holds.carried q inside longQ
    obtain ⟨blob', text', here', before', after'⟩ := holds.carried r member longR
    rw [vals] at here
    cases here.symm.trans here'
    rw [before, before', after.symm.trans after']
  · intro agree
    obtain ⟨selected, select⟩ := Option.ne_none_iff_exists'.mp (calm.select rows)
    have perm := documented.select _ _ _ select
    have readable' : ∀ r ∈ selected, Long sc.column r → (r.blob sc.column).bind oldEnc.openBlob ≠ none :=
      fun r member => readable r (perm.mem_iff.mp member)
    obtain ⟨found, scanned⟩ : ∃ found, scan oldEnc sc {} selected = .ok found := scan_ok readable'
    obtain ⟨members, opened⟩ := scan_pending scanned
    obtain ⟨rewritten, written⟩ : ∃ rows', rewrite w newEnc sc 0 found.pending rows = .ok rows' := rewrite_ok calm
    obtain ⟨final, rfl, covered, origin⟩ := rewrite_overwrites written
    -- a pending row comes from a row with its plaintext
    have source : ∀ p ∈ found.pending, ∃ r ∈ rows, p.keyVals = keyVals sc r ∧ Long sc.column r ∧
        (r.blob sc.column).bind oldEnc.openBlob = some p.plaintext := by
      intro p inside
      obtain ⟨r, member, own, blob, there, long, opens⟩ := ((members p).mp inside).resolve_left List.not_mem_nil
      exact ⟨r, perm.mem_iff.mp member, own, ⟨blob, there, long⟩, by rw [there]; exact opens⟩
    have verified : verify w newEnc sc (rows.map (overwrite sc final)) 0 found.pending = .ok () := by
      refine verify_ok documented calm (fun p inside => ?_) fun p inside r member vals => ?_
      · obtain ⟨r, member, own, -⟩ := source p inside
        exact ⟨_, List.mem_map_of_mem member, own.symm⟩
      · obtain ⟨q, -, rfl⟩ := List.mem_map.mp member
        have vals' : keyVals sc q = p.keyVals := vals
        obtain ⟨blob, here⟩ := Option.ne_none_iff_exists'.mp (covered p inside)
        obtain ⟨p', inside', same, n, rfl⟩ := origin _ _ here
        rw [overwrite_blob, vals', here]
        obtain ⟨a, memberA, ownA, longA, textA⟩ := source p inside
        obtain ⟨b, memberB, ownB, longB, textB⟩ := source p' inside'
        have text := agree b memberB a memberA (by rw [← ownA, ← ownB, same]) longB longA
        rw [textA, textB] at text
        exact (sealing.opens n _).trans text
    refine ⟨(⟨sc.table, sc.column, found.pending.length, found.skippedEmpty, found.skippedNull⟩,
      rows.map (overwrite sc final)), ?_⟩
    simp only [rotateColumn, select]
    exact except_bind_eq_ok.mpr ⟨found, scanned, except_bind_eq_ok.mpr ⟨_, written,
      except_bind_eq_ok.mpr ⟨(), verified, rfl⟩⟩⟩

end

end Protean.KeyRotate
