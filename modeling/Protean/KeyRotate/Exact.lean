import Mathlib.Data.List.Nodup
import Protean.KeyRotate.Column
import Protean.Text

namespace Protean.KeyRotate

section
variable {κ : Type} {oldEnc newEnc : Encryptor} {sc : SealedColumn} {c : Column} {rows : List (Row κ)}
  {f g : Row κ → Row κ}

/-- The long blobs of the column open under the key. -/
def Readable (enc : Encryptor) (c : Column) (rows : List (Row κ)) : Prop :=
  ∀ r ∈ rows, Long c r → (r.blob c).bind enc.openBlob ≠ none

/-- The long blobs that share their key columns hold one plaintext. -/
def Agree (enc : Encryptor) (sc : SealedColumn) (rows : List (Row κ)) : Prop :=
  ∀ q ∈ rows, ∀ r ∈ rows, keyVals sc q = keyVals sc r → Long sc.column q → Long sc.column r →
    (q.blob sc.column).bind enc.openBlob = (r.blob sc.column).bind enc.openBlob

instance (enc : Encryptor) (c : Column) (rows : List (Row κ)) : Decidable (Readable enc c rows) :=
  inferInstanceAs (Decidable (∀ r ∈ rows, Long c r → (r.blob c).bind enc.openBlob ≠ none))

instance [DecidableEq κ] (enc : Encryptor) (sc : SealedColumn) (rows : List (Row κ)) : Decidable (Agree enc sc rows) :=
  inferInstanceAs (Decidable (∀ q ∈ rows, ∀ r ∈ rows, keyVals sc q = keyVals sc r → Long sc.column q →
    Long sc.column r → (q.blob sc.column).bind enc.openBlob = (r.blob sc.column).bind enc.openBlob))

theorem Framed.long_iff (framed : Framed c f) {c' : Column} (other : c' ≠ c) (r : Row κ) : Long c' (f r) ↔ Long c' r := by
  rw [Long, Long, framed.blob r c' other]

theorem Framed.keyVals (framed : Framed c f) (r : Row κ) : keyVals sc (f r) = KeyRotate.keyVals sc r := by
  rw [KeyRotate.keyVals, KeyRotate.keyVals, framed.key]

theorem readable_map (framed : Framed c f) {c' : Column} (other : c' ≠ c) :
    Readable oldEnc c' (rows.map f) ↔ Readable oldEnc c' rows := by
  rw [Readable, List.forall_mem_map]
  refine forall_congr' fun r => forall_congr' fun _ => ?_
  rw [framed.long_iff other, framed.blob r c' other]

theorem agree_map (framed : Framed c f) (other : sc.column ≠ c) :
    Agree oldEnc sc (rows.map f) ↔ Agree oldEnc sc rows := by
  rw [Agree, List.forall_mem_map]
  refine forall_congr' fun q => forall_congr' fun _ => ?_
  rw [List.forall_mem_map]
  refine forall_congr' fun r => forall_congr' fun _ => ?_
  rw [framed.keyVals, framed.keyVals, framed.long_iff other, framed.long_iff other, framed.blob q _ other,
    framed.blob r _ other]

/-- A column is turned no matter what was done to the others before. -/
theorem Turned.comap (framed : Framed c f) (other : sc.column ≠ c) (turned : Turned oldEnc newEnc sc (rows.map f) g) :
    Turned oldEnc newEnc sc rows (g ∘ f) := by
  refine ⟨fun r member long => ?_, fun r member short => ?_⟩
  · obtain ⟨plaintext, before, after⟩ :=
      turned.carried (f r) (List.mem_map_of_mem member) ((framed.long_iff other r).mpr long)
    rw [framed.blob r _ other] at before
    exact ⟨plaintext, before, after⟩
  · have kept := turned.kept_iff (f r) (List.mem_map_of_mem member) fun long => short ((framed.long_iff other r).mp long)
    rw [framed.blob r _ other, List.forall_mem_map] at kept
    refine kept.trans (forall_congr' fun q => forall_congr' fun _ => ?_)
    rw [framed.keyVals, framed.keyVals, framed.long_iff other]

/-- And no matter what is done to the others after. -/
theorem Turned.after (turned : Turned oldEnc newEnc sc rows f) (same : ∀ r, (g r).blob sc.column = r.blob sc.column) :
    Turned oldEnc newEnc sc rows (g ∘ f) := by
  refine ⟨fun r member long => ?_, fun r member short => ?_⟩
  · rw [Function.comp_apply, same]
    exact turned.carried r member long
  · rw [Function.comp_apply, same]
    exact turned.kept_iff r member short

end

section
variable {κ : Type} [DecidableEq κ] {w : World κ} {oldEnc newEnc : Encryptor}

/-- Two of them are never one column of one table. -/
def Distinct (scs : List SealedColumn) : Prop := scs.Pairwise fun a b => a.table = b.table → a.column ≠ b.column

/-- What a whole rotation does to the rows of each table. -/
structure Rotated (oldEnc newEnc : Encryptor) (scs : List SealedColumn) (db : Database κ)
    (g : TableName → Row κ → Row κ) : Prop where
  key : ∀ t r, (g t r).key = r.key
  blob : ∀ t r c, (∀ sc ∈ scs, sc.table = t → sc.column ≠ c) → (g t r).blob c = r.blob c
  turned : ∀ sc ∈ scs, Turned oldEnc newEnc sc (db sc.table) (g sc.table)

variable {db : Database κ} {scs : List SealedColumn}

theorem rotateAll_rotated (documented : w.Documented) (sealing : newEnc.Documented) (distinct : Distinct scs)
    {db' : Database κ} {crs : List ColumnReport} (ok : rotateAll w oldEnc newEnc scs db = .ok (crs, db')) :
    ∃ g, (∀ t, db' t = (db t).map (g t)) ∧ Rotated oldEnc newEnc scs db g := by
  induction scs generalizing db crs with
  | nil =>
    cases ok
    exact ⟨fun _ r => r, fun t => (List.map_id' _).symm, fun _ _ => rfl, fun _ _ _ _ => rfl, by simp⟩
  | cons sc scs ih =>
    obtain ⟨first, rest⟩ := List.pairwise_cons.mp distinct
    unfold rotateAll at ok
    split at ok
    · cases ok
    rename_i cr rows column
    obtain ⟨⟨crs', db''⟩, later, same⟩ := except_bind_eq_ok.mp ok
    cases same
    obtain ⟨final, rfl, holds⟩ := rotateColumn_final documented sealing column
    obtain ⟨g, mapped, rotated⟩ := ih rest later
    have framed : Framed sc.column (overwrite sc final) := overwrite_framed final
    refine ⟨fun t => if t = sc.table then g t ∘ overwrite sc final else g t, fun t => ?_, fun t r => ?_,
      fun t r c free => ?_, fun sc' member => ?_⟩
    · rw [mapped]
      by_cases here : t = sc.table
      · subst here
        simp
      · simp [here]
    · split
      · exact (rotated.key t _).trans (framed.key r)
      · exact rotated.key t r
    · have later : ∀ r, (g t r).blob c = r.blob c := fun r =>
        rotated.blob t r c fun sc' inside => free sc' (List.mem_cons_of_mem _ inside)
      split
      · rename_i here
        exact (later _).trans (framed.blob r c (free sc List.mem_cons_self here.symm).symm)
      · exact later r
    · rcases List.mem_cons.mp member with rfl | member
      · have own : Turned oldEnc newEnc sc' (db sc'.table) (g sc'.table ∘ overwrite sc' final) :=
          holds.turned.after fun r => rotated.blob _ r _ fun other inside here => (first other inside here.symm).symm
        simpa using own
      · have turned := rotated.turned sc' member
        by_cases here : sc'.table = sc.table
        · rw [here] at turned ⊢
          rw [Function.update_self] at turned
          have comap := turned.comap framed (first sc' member here.symm).symm
          simpa using comap
        · rw [Function.update_of_ne here] at turned
          simpa [here] using turned

theorem rotateAll_cons_ok {sc : SealedColumn} : (∃ out, rotateAll w oldEnc newEnc (sc :: scs) db = .ok out) ↔
      ∃ cr rows, rotateColumn w oldEnc newEnc sc (db sc.table) = .ok (cr, rows) ∧
        ∃ out, rotateAll w oldEnc newEnc scs (Function.update db sc.table rows) = .ok out := by
  constructor
  · rintro ⟨out, ok⟩
    unfold rotateAll at ok
    split at ok
    · cases ok
    · rename_i cr rows column
      obtain ⟨out', later, -⟩ := except_bind_eq_ok.mp ok
      exact ⟨cr, rows, column, out', later⟩
  · rintro ⟨cr, rows, column, out, later⟩
    refine ⟨(cr :: out.1, out.2), ?_⟩
    simp only [rotateAll, column]
    exact except_bind_eq_ok.mpr ⟨out, later, rfl⟩

omit [DecidableEq κ] in
/-- A property of one column of the database survives the rotation of another. -/
theorem column_after {P : SealedColumn → List (Row κ) → Prop} {sc sc' : SealedColumn} {f : Row κ → Row κ}
    (other : sc.table = sc'.table → sc.column ≠ sc'.column)
    (local' : ∀ rows, sc'.column ≠ sc.column → (P sc' (rows.map f) ↔ P sc' rows)) :
    P sc' (Function.update db sc.table ((db sc.table).map f) sc'.table) ↔ P sc' (db sc'.table) := by
  by_cases here : sc'.table = sc.table
  · rw [here, Function.update_self]
    exact local' _ (other here.symm).symm
  · rw [Function.update_of_ne here]

/-- The rotation of a readable database goes through exactly when in each
column the long blobs that share their key columns agree. -/
theorem rotateAll_ok_iff (documented : w.Documented) (sealing : newEnc.Documented) (calm : ∀ sc, Calm w sc)
    (distinct : Distinct scs) (readable : ∀ sc ∈ scs, Readable oldEnc sc.column (db sc.table)) :
    (∃ out, rotateAll w oldEnc newEnc scs db = .ok out) ↔ ∀ sc ∈ scs, Agree oldEnc sc (db sc.table) := by
  induction scs generalizing db with
  | nil => exact ⟨fun _ => by simp, fun _ => ⟨([], db), rfl⟩⟩
  | cons sc scs ih =>
    obtain ⟨first, rest⟩ := List.pairwise_cons.mp distinct
    obtain ⟨own, others⟩ := List.forall_mem_cons.mp readable
    have column := rotateColumn_ok_iff documented sealing (calm sc) own
    -- once the column is turned, the others are as readable and agree as before
    have after : ∀ cr rows, rotateColumn w oldEnc newEnc sc (db sc.table) = .ok (cr, rows) →
        ((∃ out, rotateAll w oldEnc newEnc scs (Function.update db sc.table rows) = .ok out) ↔
          ∀ sc' ∈ scs, Agree oldEnc sc' (db sc'.table)) := by
      intro cr rows ok
      obtain ⟨final, rfl, -⟩ := rotateColumn_final documented sealing ok
      have framed : Framed sc.column (overwrite sc final) := overwrite_framed final
      have readable' : ∀ sc' ∈ scs, Readable oldEnc sc'.column
          (Function.update db sc.table ((db sc.table).map (overwrite sc final)) sc'.table) := fun sc' member =>
        (column_after (P := fun sc rows => Readable oldEnc sc.column rows) (first sc' member)
          fun rows other => readable_map framed other).mpr (others sc' member)
      rw [ih rest readable']
      exact forall_congr' fun sc' => forall_congr' fun member =>
        column_after (P := fun sc rows => Agree oldEnc sc rows) (first sc' member) fun rows other =>
          agree_map framed other
    rw [rotateAll_cons_ok, List.forall_mem_cons]
    constructor
    · rintro ⟨cr, rows, ok, later⟩
      exact ⟨column.mp ⟨_, ok⟩, (after cr rows ok).mp later⟩
    · rintro ⟨here, there⟩
      obtain ⟨⟨cr, rows⟩, ok⟩ := column.mpr here
      exact ⟨cr, rows, ok, (after cr rows ok).mpr there⟩

end

section
variable {κ : Type}

/-- The values of the primary key of a row. -/
def rowKey (t : TableName) (r : Row κ) : List κ := (primaryKey t).map r.key

/-- What the schema asks of a database. -/
structure Database.Valid (db : Database κ) : Prop where
  keys : ∀ t, ((db t).map (rowKey t)).Nodup
  notNull : ∀ sc ∈ sealedColumns, nullable sc.table sc.column = false → ∀ r ∈ db sc.table, r.blob sc.column ≠ none

/-- Every row is there again under its primary key, with its long blobs
carried over to the new key and any other one as it was. -/
structure Exact (oldEnc newEnc : Encryptor) (db db' : Database κ) : Prop where
  rows : ∀ t, (db' t).map (rowKey t) = (db t).map (rowKey t)
  carried : ∀ sc ∈ sealedColumns, ∀ r ∈ db sc.table, ∀ r' ∈ db' sc.table, rowKey sc.table r' = rowKey sc.table r →
    Long sc.column r → ∃ plaintext, (r.blob sc.column).bind oldEnc.openBlob = some plaintext ∧
      (r'.blob sc.column).bind newEnc.openBlob = some plaintext
  kept : ∀ sc ∈ sealedColumns, ∀ r ∈ db sc.table, ∀ r' ∈ db' sc.table, rowKey sc.table r' = rowKey sc.table r →
    ¬Long sc.column r → r'.blob sc.column = r.blob sc.column

/-- The two tables whose rows are updated by a part of their primary key. -/
def clientTables : List TableName := [.openvpnClients, .ikev2Clients]

theorem sealedColumns_distinct : Distinct sealedColumns := by
  unfold Distinct
  decide

theorem keyCols_cases : ∀ sc ∈ sealedColumns, sc.keyCols = primaryKey sc.table ∨
    sc.table ∈ clientTables ∧ sc.column = .encKeyPEM ∧ sc.keyCols = [.cn] := by decide

theorem clientTables_sealed : ∀ t ∈ clientTables, (⟨t, .encKeyPEM, [.cn]⟩ : SealedColumn) ∈ sealedColumns := by decide

/-- A property of two rows that share their key columns need only be known of
the two client tables. -/
theorem forall_sharing_iff {db : Database κ} (valid : db.Valid) {P : Column → Row κ → Row κ → Prop}
    (refl : ∀ c r, P c r r) :
    (∀ sc ∈ sealedColumns, ∀ q ∈ db sc.table, ∀ r ∈ db sc.table, keyVals sc q = keyVals sc r → P sc.column q r) ↔
      ∀ t ∈ clientTables, ∀ q ∈ db t, ∀ r ∈ db t, q.key .cn = r.key .cn → P .encKeyPEM q r := by
  constructor
  · intro all t member q inside r inside' same
    exact all ⟨t, .encKeyPEM, [.cn]⟩ (clientTables_sealed t member) q inside r inside' (by simp [keyVals, same])
  · intro clients sc member q inside r inside' same
    rcases keyCols_cases sc member with whole | ⟨table, column, part⟩
    · have same' : rowKey sc.table q = rowKey sc.table r := by
        rw [keyVals, keyVals, whole] at same
        exact same
      cases List.inj_on_of_nodup_map (valid.keys sc.table) inside inside' same'
      exact refl _ q
    · rw [column]
      refine clients sc.table table q inside r inside' ?_
      rw [keyVals, keyVals, part] at same
      exact List.head_eq_of_cons_eq same

theorem exact_iff {oldEnc newEnc : Encryptor} {db db' : Database κ} (valid : db.Valid)
    {g : TableName → Row κ → Row κ} (mapped : ∀ t, db' t = (db t).map (g t))
    (rotated : Rotated oldEnc newEnc sealedColumns db g) :
    Exact oldEnc newEnc db db' ↔ ∀ t ∈ clientTables, ∀ q ∈ db t, ∀ r ∈ db t, q.key .cn = r.key .cn →
      Long .encKeyPEM q → Long .encKeyPEM r := by
  have sharing := forall_sharing_iff valid (P := fun c q r => Long c q → Long c r) fun _ _ long => long
  have key : ∀ t r, rowKey t (g t r) = rowKey t r := fun t r => by rw [rowKey, rowKey, rotated.key]
  -- the row that is found again under a primary key
  have again : ∀ t, ∀ r ∈ db t, ∀ r' ∈ db' t, rowKey t r' = rowKey t r → r' = g t r := by
    intro t r inside r' inside' same
    rw [mapped] at inside'
    obtain ⟨q, member, rfl⟩ := List.mem_map.mp inside'
    rw [key] at same
    rw [List.inj_on_of_nodup_map (valid.keys t) member inside same]
  rw [← sharing]
  constructor
  · intro exact' sc member q inside r inside' same longQ
    by_contra short
    have kept := exact'.kept sc member r inside' (g sc.table r) (by rw [mapped]; exact List.mem_map_of_mem inside')
      (key _ _) short
    exact ((rotated.turned sc member).kept_iff r inside' short).mp kept q inside same longQ
  · intro apart
    refine ⟨fun t => ?_, fun sc member r inside r' inside' same long => ?_,
      fun sc member r inside r' inside' same short => ?_⟩
    · rw [mapped, List.map_map]
      exact List.map_congr_left fun r _ => key t r
    · rw [again _ r inside r' inside' same]
      exact (rotated.turned sc member).carried r inside long
    · rw [again _ r inside r' inside' same]
      exact ((rotated.turned sc member).kept_iff r inside short).mpr fun q member' shared long =>
        short (apart sc member q member' r inside shared long)

end

section
variable {κ : Type} [DecidableEq κ] (w : World κ) (oldEnc newEnc : Encryptor)

/-- A rotation that commits is exact exactly when in the two client tables no
blob that is not a sealing shares its name with one that is. One that fails or
runs dry leaves the database as it was. -/
theorem rotation_exact_iff (documented : w.Documented) (sealing : newEnc.Documented) (db : Database κ)
    (valid : db.Valid) (dryRun : Bool) :
    (∀ e, (rotate w oldEnc newEnc dryRun db).1 = .error e → (rotate w oldEnc newEnc dryRun db).2 = db) ∧
    (dryRun = true → (rotate w oldEnc newEnc dryRun db).2 = db) ∧
    ∀ report, dryRun = false → (rotate w oldEnc newEnc dryRun db).1 = .ok report →
      (Exact oldEnc newEnc db (rotate w oldEnc newEnc dryRun db).2 ↔
        ∀ t ∈ clientTables, ∀ q ∈ db t, ∀ r ∈ db t, q.key .cn = r.key .cn →
          Long .encKeyPEM q → Long .encKeyPEM r) := by
  unfold rotate
  split
  · split
    · exact ⟨fun _ _ => rfl, fun _ => rfl, fun _ _ ok => by cases ok⟩
    · rename_i report db' ok
      cases dryRun with
      | true => exact ⟨fun _ failed => rfl, fun _ => rfl, fun _ wet => by cases wet⟩
      | false =>
        split
        · rename_i dry
          cases dry
        · split
          · refine ⟨fun _ failed => (by cases failed), fun dry => (by cases dry), fun _ _ _ => ?_⟩
            obtain ⟨g, mapped, rotated⟩ := rotateAll_rotated documented sealing sealedColumns_distinct ok
            exact exact_iff valid mapped rotated
          · exact ⟨fun _ _ => rfl, fun _ => rfl, fun _ _ ok => by cases ok⟩
  · exact ⟨fun _ _ => rfl, fun _ => rfl, fun _ _ ok => by cases ok⟩

end

/-- A key that puts its number and a nonce of zeroes before the text. -/
def sampleEnc (k : UInt8) : Encryptor where
  sealText _ plaintext := k :: List.replicate 27 0 ++ plaintext
  openBlob blob := if blob.head? = some k ∧ minSealedBlobLen ≤ blob.length then some (blob.drop 28) else none

theorem sampleEnc_documented (k : UInt8) : (sampleEnc k).Documented := by
  constructor
  · intro n plaintext
    simp [sampleEnc, minSealedBlobLen]
  · intro n plaintext
    simp [sampleEnc, minSealedBlobLen]

/-- Rows come in the order of the table, and nothing fails. -/
def sampleWorld : World Text where
  beginTx := true
  select _ rows := some rows
  draw _ i := some i
  update _ _ := true
  queryRow _ _ rows := rows.head?
  commit := true

theorem sampleWorld_documented : sampleWorld.Documented := by
  constructor
  · intro sc rows selected same
    cases same
    exact List.Perm.refl _
  · intro sc i rows r found
    exact List.mem_of_head? found

/-- A row that `SaveOpenVPNClient` or `SaveIKEv2Client` writes. -/
def clientRow (provider cn : Text) (blob : Bytes) : Row Text where
  key
    | .provider => provider
    | .cn => cn
    | _ => []
  blob
    | .encKeyPEM => some blob
    | _ => none

/-- `INSERT ... ON CONFLICT (provider, cn) DO UPDATE`. -/
def saveClient (t : TableName) (provider cn : Text) (blob : Bytes) (db : Database Text) : Database Text :=
  Function.update db t (if (db t).any fun r => rowKey t r = [provider, cn] then
    (db t).map fun r => if rowKey t r = [provider, cn] then clientRow provider cn blob else r
    else db t ++ [clientRow provider cn blob])

theorem clientTables_primaryKey : ∀ t ∈ clientTables, primaryKey t = [.provider, .cn] := by decide

theorem clientTables_column : ∀ sc ∈ sealedColumns, sc.table ∈ clientTables → sc.column = .encKeyPEM := by decide

/-- The panel's own saves keep to the schema. -/
theorem saveClient_valid {db : Database Text} (valid : db.Valid) {t : TableName} (member : t ∈ clientTables)
    (provider cn : Text) (blob : Bytes) : (saveClient t provider cn blob db).Valid := by
  have key : rowKey t (clientRow provider cn blob) = [provider, cn] := by
    rw [rowKey, clientTables_primaryKey t member]
    rfl
  constructor
  · intro t'
    by_cases here : t' = t
    · subst here
      rw [saveClient, Function.update_self]
      split
      · rw [List.map_map, List.map_congr_left (g := rowKey t') fun r _ => ?_]
        · exact valid.keys t'
        · rw [Function.comp_apply]
          split
          · rename_i same
            exact key.trans same.symm
          · rfl
      · rename_i absent
        rw [List.map_append, List.nodup_append]
        refine ⟨valid.keys t', List.nodup_singleton _, fun a old b new => ?_⟩
        obtain ⟨r, inside, rfl⟩ := List.mem_map.mp old
        rw [List.mem_singleton.mp new, key]
        intro same
        exact absent (List.any_eq_true.mpr ⟨r, inside, decide_eq_true same⟩)
    · rw [saveClient, Function.update_of_ne here]
      exact valid.keys t'
  · intro sc inside required r there
    by_cases here : sc.table = t
    · subst here
      have column := clientTables_column sc inside member
      have filled : (clientRow provider cn blob).blob sc.column ≠ none := by
        rw [column]
        exact Option.some_ne_none blob
      rw [saveClient, Function.update_self] at there
      split at there
      · obtain ⟨q, inside', rfl⟩ := List.mem_map.mp there
        split
        · exact filled
        · exact valid.notNull sc inside required q inside'
      · rcases List.mem_append.mp there with old | new
        · exact valid.notNull sc inside required r old
        · rw [List.mem_singleton.mp new]
          exact filled
    · rw [saveClient, Function.update_of_ne here] at there
      exact valid.notNull sc inside required r there

theorem valid_empty : Database.Valid (fun _ => [] : Database Text) :=
  ⟨fun _ => List.nodup_nil, fun _ _ _ _ inside => by cases inside⟩

/-- Two OpenVPN clients on two servers, one after the other. -/
def sampleClients (first : Text) (firstBlob : Bytes) (second : Text) (secondBlob : Bytes) : Database Text :=
  saveClient .openvpnClients "s2:openvpn".toList second secondBlob
    (saveClient .openvpnClients "s1:openvpn".toList first firstBlob fun _ => [])

theorem sampleClients_valid (first : Text) (firstBlob : Bytes) (second : Text) (secondBlob : Bytes) :
    (sampleClients first firstBlob second secondBlob).Valid :=
  saveClient_valid (saveClient_valid valid_empty (by decide) _ _ _) (by decide) _ _ _

/-- A sealing and an empty blob under two names. -/
theorem rotation_exact_iff_sample :
    Exact (sampleEnc 1) (sampleEnc 2)
      (sampleClients "alice".toList ((sampleEnc 1).sealText 0 [7]) "bob".toList [])
      (rotate sampleWorld (sampleEnc 1) (sampleEnc 2) false
        (sampleClients "alice".toList ((sampleEnc 1).sealText 0 [7]) "bob".toList [])).2 := by
  obtain ⟨-, -, exact_iff⟩ := rotation_exact_iff sampleWorld (sampleEnc 1) (sampleEnc 2) sampleWorld_documented
    (sampleEnc_documented 2) _ (sampleClients_valid "alice".toList ((sampleEnc 1).sealText 0 [7]) "bob".toList []) false
  exact (exact_iff _ rfl rfl).mpr (by decide +kernel)

/-- The same blobs under one name: the rotation commits, and the empty blob of
the second server's client is gone. -/
theorem rotation_overwrites_empty :
    (∃ report, (rotate sampleWorld (sampleEnc 1) (sampleEnc 2) false
      (sampleClients "alice".toList ((sampleEnc 1).sealText 0 [7]) "alice".toList [])).1 = .ok report) ∧
    ((sampleClients "alice".toList ((sampleEnc 1).sealText 0 [7]) "alice".toList []) .openvpnClients).map
        (fun r => (r.key .provider, r.blob .encKeyPEM)) =
      [("s1:openvpn".toList, some ((sampleEnc 1).sealText 0 [7])), ("s2:openvpn".toList, some [])] ∧
    ((rotate sampleWorld (sampleEnc 1) (sampleEnc 2) false
        (sampleClients "alice".toList ((sampleEnc 1).sealText 0 [7]) "alice".toList [])).2 .openvpnClients).map
        (fun r => (r.key .provider, r.blob .encKeyPEM)) =
      [("s1:openvpn".toList, some ((sampleEnc 2).sealText 0 [7])),
        ("s2:openvpn".toList, some ((sampleEnc 2).sealText 0 [7]))] :=
  ⟨⟨_, rfl⟩, by decide +kernel, by decide +kernel⟩

section
variable {κ : Type} [DecidableEq κ] (w : World κ) (oldEnc newEnc : Encryptor)

/-- On a readable database, with no call failing, the rotation succeeds exactly
when in the two client tables the sealings under one name hold one plaintext. -/
theorem rotation_completes_iff (documented : w.Documented) (sealing : newEnc.Documented)
    (calm : ∀ sc, Calm w sc) (begins : w.beginTx = true) (commits : w.commit = true) (db : Database κ)
    (valid : db.Valid) (readable : ∀ sc ∈ sealedColumns, Readable oldEnc sc.column (db sc.table)) :
    (∃ report, (rotate w oldEnc newEnc false db).1 = .ok report) ↔
      ∀ t ∈ clientTables, ∀ q ∈ db t, ∀ r ∈ db t, q.key .cn = r.key .cn → Long .encKeyPEM q → Long .encKeyPEM r →
        (q.blob .encKeyPEM).bind oldEnc.openBlob = (r.blob .encKeyPEM).bind oldEnc.openBlob := by
  have sharing := forall_sharing_iff valid
    (P := fun c q r => Long c q → Long c r → (q.blob c).bind oldEnc.openBlob = (r.blob c).bind oldEnc.openBlob)
    fun _ _ _ _ => rfl
  rw [← sharing]
  refine Iff.trans ?_ (rotateAll_ok_iff documented sealing calm sealedColumns_distinct readable)
  simp only [rotate, begins, commits, if_true]
  cases rotateAll w oldEnc newEnc sealedColumns db with
  | error e => exact ⟨fun ⟨_, ok⟩ => (by cases ok), fun ⟨_, ok⟩ => (by cases ok)⟩
  | ok out => exact ⟨fun _ => ⟨out, rfl⟩, fun _ => ⟨out.1, rfl⟩⟩

end

theorem sampleWorld_calm (sc : SealedColumn) : Calm sampleWorld sc := by
  refine ⟨fun rows => Option.some_ne_none rows, fun i => Option.some_ne_none i, fun _ => rfl, fun i rows some' => ?_⟩
  cases rows with
  | nil => exact absurd rfl some'
  | cons r rows => exact Option.some_ne_none r

/-- Two keys under two names. -/
theorem rotation_completes_iff_sample :
    ∃ report, (rotate sampleWorld (sampleEnc 1) (sampleEnc 2) false (sampleClients
      "alice".toList ((sampleEnc 1).sealText 0 [7]) "bob".toList ((sampleEnc 1).sealText 1 [8]))).1 = .ok report := by
  have agree : ∀ t ∈ clientTables, Agree (sampleEnc 1) ⟨t, .encKeyPEM, [.cn]⟩ (sampleClients
      "alice".toList ((sampleEnc 1).sealText 0 [7]) "bob".toList ((sampleEnc 1).sealText 1 [8]) t) := by decide +kernel
  refine (rotation_completes_iff sampleWorld (sampleEnc 1) (sampleEnc 2) sampleWorld_documented (sampleEnc_documented 2)
    sampleWorld_calm rfl rfl _ (sampleClients_valid ..) (by decide +kernel)).mpr fun t member q inside r inside' same => ?_
  exact agree t member q inside r inside' (by simp [keyVals, same])

/-- Two keys under one name on two servers: the verify pass finds the second
in place of the first. -/
theorem rotation_mismatch :
    (rotate sampleWorld (sampleEnc 1) (sampleEnc 2) false (sampleClients
      "alice".toList ((sampleEnc 1).sealText 0 [7]) "alice".toList ((sampleEnc 1).sealText 1 [8]))).1 =
      .error (.column ⟨.openvpnClients, .encKeyPEM, [.cn]⟩ (.verifyMismatch ["alice".toList])) := by
  rfl

end Protean.KeyRotate
