import Mathlib.Data.List.GetD
import Perception.Db.AllOrNothing

/-!
# The values of a row

What is bound for one row is still bound for the next, unless another value is asked for in its
place. So a row has the values of its own object where these are bound, null where a bind fails,
and elsewhere those that the object before it asked for.
-/
namespace Perception.Db

set_option autoImplicit false

def Value.toSql : Value → SqlVal
  | .null => .null
  | .string s => .text s
  | .int n => .integer n
  | .real text => .real text
  | .other => .null

/-- The values of an object for `n` parameters. -/
def Element.values (n : Nat) : Element → List SqlVal
  | .object row => (List.range n).map fun i => (row[i]?).elim .null fun m => m.2.toSql
  | .other => []

namespace CSmartDB

/-- The rows that the loop over the document inserts, each with the element it is made for.
What the step inserts are the parameters, and it leaves them. -/
def insertedRows (failedBind : FailedBind) : List (Element × RowCodes) → CSmartDB → List (Element × List SqlVal)
  | [], _ => []
  | (val, codes) :: doc, db =>
    match db.ExcecuteJsonRow failedBind val codes with
    | .ok (true, db) => (val, db.params) :: insertedRows failedBind doc db
    | _ => []

end CSmartDB

/-- Every row has the values of its own object, and null where that has none. -/
def RowFidelity (n : Nat) (rows : List (Element × List SqlVal)) : Prop := ∀ r ∈ rows, r.2 = r.1.values n

/-- A parameter gets the value of its member, or is to be null and cannot be bound, or has no
member and was null: `prev` are the values of the object before. -/
def ParamClean (prev : List SqlVal) (row : JRow) (codes : List Int) (i : Nat) : Prop :=
  match row[i]? with
  | some m =>
    if codes.getD i SQLITE_OK = SQLITE_OK then memberValue row m.1 = .ok m.2.toSql else m.2.toSql = .null
  | none => prev.getD i .null = .null

instance (prev : List SqlVal) (row : JRow) (codes : List Int) (i : Nat) : Decidable (ParamClean prev row codes i) :=
  match h : row[i]? with
  | some m =>
    decidable_of_iff (if codes.getD i SQLITE_OK = SQLITE_OK then memberValue row m.1 = .ok m.2.toSql
      else m.2.toSql = .null) (by rw [ParamClean, h])
  | none => decidable_of_iff (prev.getD i .null = .null) (by rw [ParamClean, h])

def RowClean (n : Nat) (prev : List SqlVal) (row : JRow) (codes : List Int) : Prop :=
  ∀ i < n, ParamClean prev row codes i

instance (n : Nat) (prev : List SqlVal) (row : JRow) (codes : List Int) : Decidable (RowClean n prev row codes) :=
  inferInstanceAs (Decidable (∀ i < n, ParamClean prev row codes i))

/-- All rows are so up to the first that is not inserted. -/
def RowsClean (n : Nat) : List SqlVal → List (Element × RowCodes) → Prop
  | _, [] => True
  | _, (.other, _) :: _ => True
  | prev, (.object row, codes) :: doc =>
    Inserted (.object row, codes) →
      RowClean n prev row codes.binds ∧ RowsClean n ((Element.object row).values n) doc

variable {failedBind : CSmartDB.FailedBind} {row : JRow}

theorem length_boundParam (params : List SqlVal) (index : Nat) (v : SqlVal) (code : Int) :
    (boundParam failedBind params index v code).length = params.length := by
  unfold boundParam
  split
  · rfl
  · rw [List.length_set]

theorem length_boundMembers (ms : JRow) (index : Nat) (codes : List Int) (params : List SqlVal) :
    (boundMembers failedBind row ms index codes params).length = params.length := by
  induction ms generalizing index codes params with
  | nil => rfl
  | cons m ms ih =>
    rw [boundMembers]
    cases memberValue row m.1 with
    | error e => rfl
    | ok v => exact (ih _ _ _).trans (length_boundParam params index v _)

theorem getD_boundParam_self {params : List SqlVal} {index : Nat} (hi : index < params.length) (v : SqlVal) (code : Int) :
    (boundParam failedBind params index v code).getD index .null =
      if code = SQLITE_OK then v else failedBind (params.getD index .null) code := by
  unfold boundParam
  rw [if_neg (not_le.mpr hi), List.getD_eq_getElem _ _ (by rwa [List.length_set]), List.getElem_set_self]

theorem getD_boundParam_ne {index i : Nat} (hne : i ≠ index) (params : List SqlVal) (v : SqlVal) (code : Int) :
    (boundParam failedBind params index v code).getD i .null = params.getD i .null := by
  unfold boundParam
  split
  · rfl
  · rw [List.getD_eq_getElem?_getD, List.getElem?_set_ne hne.symm, ← List.getD_eq_getElem?_getD]

theorem getD_boundMembers_lt (ms : JRow) {index i : Nat} (hi : i < index) (codes : List Int) (params : List SqlVal) :
    (boundMembers failedBind row ms index codes params).getD i .null = params.getD i .null := by
  induction ms generalizing index codes params with
  | nil => rfl
  | cons m ms ih =>
    rw [boundMembers]
    cases memberValue row m.1 with
    | error e => rfl
    | ok v => exact (ih (Nat.lt_succ_of_lt hi) _ _).trans (getD_boundParam_ne hi.ne params v _)

/-- What parameter `i` holds once the members are bound, if it held `old`. -/
def boundAt (failedBind : CSmartDB.FailedBind) (row ms : JRow) (codes : List Int) (old : SqlVal) (i : Nat) : SqlVal :=
  match ms[i]? with
  | some m => if codes.getD i SQLITE_OK = SQLITE_OK then (memberValue row m.1).toOption.getD .null
    else failedBind old (codes.getD i SQLITE_OK)
  | none => old

theorem getD_boundMembers {ms : JRow} (hread : ∀ m ∈ ms, (memberValue row m.1).toBool = true) {index : Nat}
    (codes : List Int) {params : List SqlVal} {i : Nat} (hi : index + i < params.length) :
    (boundMembers failedBind row ms index codes params).getD (index + i) .null =
      boundAt failedBind row ms codes (params.getD (index + i) .null) i := by
  induction ms generalizing index codes params i with
  | nil => rfl
  | cons m ms ih =>
    have hrest := @ih fun m' hm' => hread m' (List.mem_cons_of_mem m hm')
    cases hv : memberValue row m.1 with
    | error e =>
      have hm := hread m List.mem_cons_self
      rw [hv] at hm
      cases hm
    | ok v =>
      simp only [boundMembers, hv]
      cases i with
      | zero =>
        simp only [Nat.add_zero] at hi ⊢
        rw [getD_boundMembers_lt ms (Nat.lt_succ_self index), getD_boundParam_self hi, boundAt, List.getElem?_cons_zero]
        simp only [hv, Except.toOption, Option.getD_some]
        cases codes with
        | nil => rfl
        | cons code codes => rfl
      | succ i =>
        have hi' : index + 1 + i < (boundParam failedBind params index v (codes.headD SQLITE_OK)).length := by
          rw [length_boundParam]
          omega
        have hnext := @hrest (index + 1) codes.tail _ i hi'
        have hplace : index + (i + 1) = index + 1 + i := by omega
        rw [hplace, hnext, getD_boundParam_ne (by omega), boundAt, boundAt, List.getElem?_cons_succ]
        cases codes with
        | nil => rfl
        | cons code codes => rfl

theorem length_values (n : Nat) (row : JRow) : ((Element.object row).values n).length = n := by
  rw [Element.values, List.length_map, List.length_range]

theorem getD_values {n i : Nat} (hi : i < n) (row : JRow) :
    ((Element.object row).values n).getD i .null = (row[i]?).elim .null fun m => m.2.toSql := by
  rw [List.getD_eq_getElem _ _ (by rwa [length_values])]
  simp only [Element.values, List.getElem_map, List.getElem_range]

theorem eq_iff_getD {α : Type} {n : Nat} {l l' : List α} (hl : l.length = n) (hl' : l'.length = n) (d : α) :
    l = l' ↔ ∀ i < n, l.getD i d = l'.getD i d := by
  constructor
  · intro heq i _
    rw [heq]
  · intro h
    apply List.ext_getElem (hl.trans hl'.symm)
    intro i hi hi'
    have hat := h i (hl ▸ hi)
    rwa [List.getD_eq_getElem _ _ hi, List.getD_eq_getElem _ _ hi'] at hat

/-- A row that is bound over the values of the object before has its own values exactly if
it is clean. -/
theorem bound_eq_values_iff (hnull : CSmartDB.LeavesNull failedBind) {n : Nat} {prev : List SqlVal}
    (hprev : prev.length = n) {codes : RowCodes}
    (hins : Inserted (.object row, codes)) :
    (Element.object row).bound failedBind prev codes.binds = (Element.object row).values n ↔
      RowClean n prev row codes.binds := by
  have hread := CSmartDB.stops_object.mp hins.1
  have hlen : (boundMembers failedBind row row 0 codes.binds prev).length = n :=
    (length_boundMembers row 0 codes.binds prev).trans hprev
  show boundMembers failedBind row row 0 codes.binds prev = _ ↔ _
  rw [eq_iff_getD hlen (length_values n row) .null]
  apply forall₂_congr
  intro i hi
  have hat := @getD_boundMembers failedBind row row hread 0 codes.binds prev i (by omega)
  rw [Nat.zero_add] at hat
  rw [hat, getD_values hi, boundAt, ParamClean]
  cases hm : row[i]? with
  | none => rfl
  | some m =>
    have hmem := hread m (List.mem_of_getElem? hm)
    cases hv : memberValue row m.1 with
    | error e =>
      rw [hv] at hmem
      cases hmem
    | ok v =>
      simp only [Option.elim_some]
      split
      · rw [hv, Except.ok.injEq]
        rfl
      · next hcode =>
        rw [hnull _ _ hcode]
        exact eq_comm

/-- Rows that are not inserted end the loop. -/
theorem insertedRows_not_inserted {x : Element × RowCodes} (hx : ¬Inserted x) (doc : List (Element × RowCodes)) (db : CSmartDB) :
    CSmartDB.insertedRows failedBind (x :: doc) db = [] := by
  obtain ⟨val, codes⟩ := x
  rw [CSmartDB.insertedRows]
  cases hstops : val.stops with
  | true =>
    obtain ⟨e, he⟩ := @CSmartDB.row_stops failedBind db val codes hstops
    rw [he]
  | false =>
    have hcode : codes.step ≠ SQLITE_DONE := fun hcode => hx ⟨hstops, hcode⟩
    rw [CSmartDB.row_failed hstops hcode]

theorem insertedRows_inserted {val : Element} {codes : RowCodes} (h : Inserted (val, codes)) (doc : List (Element × RowCodes))
    (db : CSmartDB) :
    CSmartDB.insertedRows failedBind ((val, codes) :: doc) db =
      (val, val.bound failedBind db.params codes.binds) ::
        CSmartDB.insertedRows failedBind doc (db.stored (val.bound failedBind db.params codes.binds)) := by
  rw [CSmartDB.insertedRows, CSmartDB.row_inserted h]
  rfl

theorem rowFidelity_iff (hnull : CSmartDB.LeavesNull failedBind) {n : Nat} (doc : List (Element × RowCodes))
    {db : CSmartDB} (hparams : db.params.length = n) :
    RowFidelity n (CSmartDB.insertedRows failedBind doc db) ↔ RowsClean n db.params doc := by
  induction doc generalizing db with
  | nil => exact iff_of_true (fun _ h => absurd h List.not_mem_nil) trivial
  | cons x doc ih =>
    obtain ⟨val, codes⟩ := x
    by_cases hins : Inserted (val, codes)
    · cases val with
      | other => exact absurd hins.1 Bool.false_ne_true.symm
      | object row =>
        have hbound := bound_eq_values_iff hnull hparams hins
        have hlen : ((Element.object row).bound failedBind db.params codes.binds).length = n :=
          (length_boundMembers row 0 codes.binds db.params).trans hparams
        have hrest := @ih (db.stored ((Element.object row).bound failedBind db.params codes.binds)) hlen
        rw [insertedRows_inserted hins, RowFidelity, List.forall_mem_cons, RowsClean, forall_prop_of_true hins]
        show (Element.object row).bound failedBind db.params codes.binds = _ ∧ RowFidelity n _ ↔ _
        rw [hrest, hbound]
        -- the next row is bound over the values of this object
        apply and_congr_right
        intro hclean
        show RowsClean n ((Element.object row).bound failedBind db.params codes.binds) doc ↔ _
        rw [hbound.mpr hclean]
    · rw [insertedRows_not_inserted hins]
      refine iff_of_true (fun _ h => absurd h List.not_mem_nil) ?_
      cases val with
      | other => trivial
      | object row => exact fun h => absurd h hins

/-- What the loop leaves when all rows are inserted are the inserted rows. -/
theorem insertRows_of_inserted {doc : List (Element × RowCodes)} (h : ∀ x ∈ doc, Inserted x) (rollback : ExecCode)
    (db : CSmartDB) :
    CSmartDB.insertRows failedBind rollback doc db = .ok (db.storedRows failedBind doc) ∧
      (CSmartDB.insertedRows failedBind doc db).map Prod.snd = boundRows failedBind db.params doc := by
  constructor
  · have happend := @CSmartDB.insertRows_append failedBind doc rollback h [] db
    rwa [List.append_nil] at happend
  · induction doc generalizing db with
    | nil => rfl
    | cons x doc ih =>
      obtain ⟨val, codes⟩ := x
      rw [insertedRows_inserted (h _ List.mem_cons_self), List.map_cons, ih fun y hy => h y (List.mem_cons_of_mem _ hy)]
      rfl

/-- The rows that `JsonTransaction` inserts for a new statement. -/
def transactionRows (failedBind : CSmartDB.FailedBind) (db : CSmartDB) (n : Nat) (doc : List (Element × RowCodes))
    (codes : TransactionCodes) : List (Element × List SqlVal) :=
  CSmartDB.insertedRows failedBind doc ((db.Prepare SQLITE_OK n).2.Begin codes.begin_)

/-- Every row has its own values exactly if each member is bound and read as it is, and each
parameter that is not bound holds what is wanted from the object before. -/
theorem JsonTransaction_rowFidelity_iff {failedBind : CSmartDB.FailedBind}
    (hnull : CSmartDB.LeavesNull failedBind) (db : CSmartDB) (n : Nat) (doc : List (Element × RowCodes))
    (codes : TransactionCodes) :
    RowFidelity n (transactionRows failedBind db n doc codes) ↔ RowsClean n (List.replicate n .null) doc := by
  have hparams : ((db.Prepare SQLITE_OK n).2.Begin codes.begin_).params = List.replicate n .null := by
    unfold CSmartDB.Begin
    split
    · rfl
    · rfl
  rw [transactionRows, rowFidelity_iff hnull doc (by rw [hparams, List.length_replicate]), hparams]

theorem leavesNull_nullBind : CSmartDB.LeavesNull CSmartDB.nullBind := fun _ _ _ => rfl

/-- The second object has one more member, which cannot be bound, and it is null. -/
theorem rowFidelity_longer :
    RowFidelity 2 (transactionRows CSmartDB.nullBind (CSmartDB.idle 0 [] []) 2
      [(.object [("a", .string "z")], ⟨[], SQLITE_DONE, false⟩),
        (.object [("a", .int 5), ("b", .null)], ⟨[SQLITE_OK, SQLITE_ERROR], SQLITE_DONE, false⟩),
        (.object [("a", .string "x"), ("b", .string "y")], ⟨[], SQLITE_DONE, false⟩)]
      ⟨CSmartDB.okCode, CSmartDB.okCode, CSmartDB.okCode, false⟩) := by
  refine (JsonTransaction_rowFidelity_iff leavesNull_nullBind _ _ _ _).mpr ?_
  exact fun _ => ⟨by decide +kernel, fun _ => ⟨by decide +kernel, fun _ => ⟨by decide +kernel, trivial⟩⟩⟩

/-- The second object has one member, and its row a value of the first object. -/
theorem not_rowFidelity_shorter :
    (CSmartDB.idle 0 [] []).ExcecuteJson CSmartDB.nullBind SQLITE_OK 2
        (some [(.object [("a", .string "x"), ("b", .string "y")], ⟨[], SQLITE_DONE, false⟩),
          (.object [("a", .string "z")], ⟨[], SQLITE_DONE, false⟩)])
        ⟨CSmartDB.okCode, CSmartDB.okCode, CSmartDB.okCode, false⟩ =
        .ok (true, ⟨SQLITE_OK, [.text "z", .text "y"], false, [[.text "x", .text "y"], [.text "z", .text "y"]], []⟩) ∧
      ¬RowFidelity 2 (transactionRows CSmartDB.nullBind (CSmartDB.idle 0 [] []) 2
        [(.object [("a", .string "x"), ("b", .string "y")], ⟨[], SQLITE_DONE, false⟩),
          (.object [("a", .string "z")], ⟨[], SQLITE_DONE, false⟩)]
        ⟨CSmartDB.okCode, CSmartDB.okCode, CSmartDB.okCode, false⟩) := by
  refine ⟨by decide +kernel, fun h => ?_⟩
  have hrow := h (.object [("a", .string "z")], [.text "z", .text "y"]) (by decide +kernel)
  exact absurd hrow (by decide +kernel)

end Perception.Db
