import Mathlib.Data.List.TakeWhile
import Minirel.Catalog.Calls

/-! What the two catalogs and the directory are for: which relations there are,
with which attributes, and which files. A relation has attributes only while it
is listed, and the catalogs themselves are always listed. -/
namespace Minirel
open Function

structure Database extends Catalog where
  present : Name → Bool
  openCnt : Name → Nat
  creatable : Name → Bool
  described : ∀ relation, rel relation = none → rows relation = []
  catalogs : rel relCatName ≠ none ∧ rel attrCatName ≠ none

def UserName (relation : Name) : Prop := relation ≠ relCatName ∧ relation ≠ attrCatName

instance (relation : Name) : Decidable (UserName relation) := inferInstanceAs (Decidable (_ ∧ _))

def describe (relation : Name) : Int → List AttrInfo → List AttrDesc
  | _, [] => []
  | offset, attr :: attrs =>
    ⟨relation, attr.attrName, offset, int attr.attrType, int attr.attrLen⟩ ::
      describe relation (int (offset + int attr.attrLen)) attrs

theorem describe_names (relation : Name) (offset : Int) (attrs : List AttrInfo) :
    (describe relation offset attrs).map AttrDesc.attrName = attrs.map AttrInfo.attrName := by
  induction attrs generalizing offset with
  | nil => rfl
  | cons attr attrs ih => exact congrArg _ (ih _)

def AttrInfo.Short (attr : AttrInfo) : Prop := attr.attrName.length < maxName

instance (attr : AttrInfo) : Decidable attr.Short := inferInstanceAs (Decidable (_ < _))

def storable (attrList : List AttrInfo) : List AttrInfo := attrList.takeWhile fun attr => attr.Short

theorem storable_isInit (attrList : List AttrInfo) : storable attrList <+: attrList :=
  List.takeWhile_prefix _

theorem storable_cons_short {attr : AttrInfo} {attrs : List AttrInfo} (short : attr.Short) :
    storable (attr :: attrs) = attr :: storable attrs := by
  simp [storable, short]

theorem storable_cons_long {attr : AttrInfo} {attrs : List AttrInfo} (long : ¬ attr.Short) :
    storable (attr :: attrs) = [] := by
  simp [storable, long]

theorem storable_of_short {attrList : List AttrInfo} (short : ∀ attr ∈ attrList, attr.Short) :
    storable attrList = attrList :=
  List.takeWhile_eq_self_iff.mpr (by simpa using short)

namespace Database
variable {db : Database} {relation other : Name} {attrList : List AttrInfo} {rows : List AttrDesc}

def enter (db : Database) (relation : Name) (attrCnt : Int) (rows : List AttrDesc) : Database where
  toCatalog := (db.toCatalog.setRel relation (some attrCnt)).setRows relation rows
  present := db.present
  openCnt := db.openCnt
  creatable := db.creatable
  described other none := by
    by_cases same : other = relation
    · subst same
      simp [Catalog.setRel, Catalog.setRows] at none
    · simp only [Catalog.setRel, Catalog.setRows, update_of_ne same] at none ⊢
      exact db.described other none
  catalogs := by
    simp only [Catalog.setRel, Catalog.setRows, update_apply]
    constructor <;> split <;> simp [db.catalogs]

def remove (db : Database) (relation : Name) (user : UserName relation) : Database where
  toCatalog := (db.toCatalog.setRows relation []).setRel relation none
  present := db.present
  openCnt := db.openCnt
  creatable := db.creatable
  described other none := by
    by_cases same : other = relation
    · subst same
      simp [Catalog.setRel, Catalog.setRows]
    · simp only [Catalog.setRel, Catalog.setRows, update_of_ne same] at none ⊢
      exact db.described other none
  catalogs := by
    simp only [Catalog.setRel, Catalog.setRows, update_of_ne user.1.symm, update_of_ne user.2.symm]
    exact db.catalogs

def trim (db : Database) (relation : Name) : Database where
  toCatalog := db.toCatalog.setRows relation ((db.rows relation).dropWhile fun d => d.attrName ≠ [])
  present := db.present
  openCnt := db.openCnt
  creatable := db.creatable
  described other none := by
    by_cases same : other = relation
    · subst same
      simp [db.described other none]
    · rw [Catalog.rows_setRows_of_ne same]
      exact db.described other none
  catalogs := db.catalogs

/-- `createHeapFile`; a file that is there already stays open. -/
def createFile (db : Database) (name : Name) : Status × Database :=
  if 0 < db.openCnt name ∨ db.present name then
    (.fileExists, { db with openCnt := update db.openCnt name (db.openCnt name + 1) })
  else if db.creatable name then (.ok, { db with present := update db.present name true })
  else (.unixErr, db)

def destroyFile (db : Database) (name : Name) : Status × Database :=
  if 0 < db.openCnt name then (.fileOpen, db)
  else if db.present name then (.ok, { db with present := update db.present name false })
  else (.unixErr, db)

def refusal (db : Database) (relation : Name) (attrList : List AttrInfo) : Option Status :=
  if relation = [] ∨ attrList.length < 1 then some .badCatParm
  else if relation.length ≥ maxName then some .nameTooLong
  else if db.rel relation ≠ none then some .relExists
  else if ¬ (attrList.map AttrInfo.attrName).Nodup then some .duplAttr
  else if RelCatalog.tupleWidth attrList > pageSize then some .attrTooLong
  else none

/-- A relation with an attribute whose name is too long stays entered in part. -/
def createRel (db : Database) (relation : Name) (attrList : List AttrInfo) : Status × Database :=
  match db.refusal relation attrList with
  | some status => (status, db)
  | none =>
    let entered := db.enter relation (int attrList.length) (describe relation 0 (storable attrList))
    if ∀ attr ∈ attrList, attr.Short then entered.createFile relation else (.nameTooLong, entered)

/-- A relation whose file cannot be removed is removed from the catalogs. -/
def destroyRel (db : Database) (relation : Name) : Status × Database :=
  if own : relation = [] ∨ relation = relCatName ∨ relation = attrCatName then (.badCatParm, db)
  else if db.rows relation = [] then (.relNotFound, db)
  else if ∃ d ∈ db.rows relation, d.attrName = [] then (.badCatParm, db.trim relation)
  else (db.remove relation (not_or.mp (not_or.mp own).2)).destroyFile relation

/-! What the calls can do. -/

@[simp] theorem rel_enter (attrCnt : Int) :
    (db.enter relation attrCnt rows).rel = update db.rel relation (some attrCnt) := rfl

@[simp] theorem rows_enter (attrCnt : Int) :
    (db.enter relation attrCnt rows).rows = update db.rows relation rows := rfl

@[simp] theorem rel_remove (user : UserName relation) :
    (db.remove relation user).rel = update db.rel relation none := rfl

@[simp] theorem rows_remove (user : UserName relation) :
    (db.remove relation user).rows = update db.rows relation [] := rfl

@[simp] theorem present_enter (attrCnt : Int) :
    (db.enter relation attrCnt rows).present = db.present := rfl

@[simp] theorem present_remove (user : UserName relation) :
    (db.remove relation user).present = db.present := rfl

@[simp] theorem present_trim : (db.trim relation).present = db.present := rfl

@[simp] theorem rel_trim : (db.trim relation).rel = db.rel := rfl

@[simp] theorem rows_trim : (db.trim relation).rows =
    update db.rows relation ((db.rows relation).dropWhile fun d => d.attrName ≠ []) := rfl

structure Acceptable (db : Database) (relation : Name) (attrList : List AttrInfo) : Prop where
  named : relation ≠ []
  nonempty : attrList ≠ []
  fits : relation.length < maxName
  unlisted : db.rel relation = none
  distinct : (attrList.map AttrInfo.attrName).Nodup
  width : RelCatalog.tupleWidth attrList ≤ pageSize

theorem refusal_eq_none : db.refusal relation attrList = none ↔
    db.Acceptable relation attrList := by
  unfold refusal
  constructor
  · intro none
    split_ifs at none with bad long listed dup wide
    obtain ⟨named, nonempty⟩ := not_or.mp bad
    exact ⟨named, fun empty => nonempty (by simp [empty]), by omega, not_not.mp listed, dup, by omega⟩
  · rintro ⟨named, nonempty, fits, unlisted, distinct, width⟩
    have some' : ¬ attrList.length < 1 := by
      have := List.length_pos_iff.mpr nonempty
      omega
    simp [named, some', Nat.not_le.mpr fits, unlisted, distinct, not_lt.mpr width]

/-- The checks that fail before the relation is known to be new. -/
theorem refusal_cases {status : Status} (refused : db.refusal relation attrList = some status) :
    status = .badCatParm ∨ status = .relExists ∨ status = .nameTooLong ∧ maxName ≤ relation.length ∨
      (status = .duplAttr ∨ status = .attrTooLong) ∧ db.rel relation = none := by
  unfold refusal at refused
  split_ifs at refused with bad long listed dup wide <;> cases refused <;> simp_all

def entered (db : Database) (relation : Name) (attrList : List AttrInfo) : Database :=
  db.enter relation (int attrList.length) (describe relation 0 (storable attrList))

inductive Creation (db : Database) (relation : Name) (attrList : List AttrInfo) :
    Status × Database → Prop
  | refused (refused : db.refusal relation attrList = some status) :
      Creation db relation attrList (status, db)
  | stopped (accepted : db.Acceptable relation attrList) (long : ¬ ∀ attr ∈ attrList, attr.Short) :
      Creation db relation attrList (.nameTooLong, db.entered relation attrList)
  | known (accepted : db.Acceptable relation attrList) (short : ∀ attr ∈ attrList, attr.Short)
      (known : 0 < db.openCnt relation ∨ db.present relation = true) (openCnt : Name → Nat) :
      Creation db relation attrList
        (.fileExists, { db.entered relation attrList with openCnt := openCnt })
  | uncreatable (accepted : db.Acceptable relation attrList) (short : ∀ attr ∈ attrList, attr.Short)
      (uncreatable : db.creatable relation = false) :
      Creation db relation attrList (.unixErr, db.entered relation attrList)
  | created (accepted : db.Acceptable relation attrList) (short : ∀ attr ∈ attrList, attr.Short)
      (unopened : db.openCnt relation = 0) (absent : db.present relation = false)
      (creatable : db.creatable relation = true) :
      Creation db relation attrList
        (.ok, { db.entered relation attrList with present := update db.present relation true })

theorem createRel_cases (db : Database) (relation : Name) (attrList : List AttrInfo) :
    Creation db relation attrList (db.createRel relation attrList) := by
  unfold createRel
  cases checked : db.refusal relation attrList with
  | some status => exact .refused checked
  | none =>
    have accepted := refusal_eq_none.mp checked
    by_cases short : ∀ attr ∈ attrList, attr.Short
    swap
    · rw [if_neg short]
      exact .stopped accepted short
    rw [if_pos short]
    unfold createFile
    split_ifs with known creatable
    · exact .known accepted short known _
    · obtain ⟨unopened, absent⟩ := not_or.mp known
      exact .created accepted short (Nat.eq_zero_of_not_pos unopened)
        (Bool.eq_false_of_not_eq_true absent) creatable
    · exact .uncreatable accepted short (Bool.eq_false_of_not_eq_true creatable)

theorem createRel_ok (accepted : db.Acceptable relation attrList)
    (short : ∀ attr ∈ attrList, attr.Short) (unopened : db.openCnt relation = 0)
    (absent : db.present relation = false) (creatable : db.creatable relation = true) :
    db.createRel relation attrList =
      (.ok, { db.entered relation attrList with present := update db.present relation true }) := by
  have unknown : ¬ (0 < db.openCnt relation ∨ db.present relation = true) := by simp [unopened, absent]
  simp only [createRel, refusal_eq_none.mpr accepted]
  rw [if_pos short, createFile]
  exact (if_neg unknown).trans (if_pos creatable)

inductive Destruction (db : Database) (relation : Name) : Status × Database → Prop
  | refused (own : relation = [] ∨ relation = relCatName ∨ relation = attrCatName) :
      Destruction db relation (.badCatParm, db)
  | unknown (none : db.rows relation = []) : Destruction db relation (.relNotFound, db)
  | stopped (given : relation ≠ []) (user : UserName relation)
      (nameless : ∃ d ∈ db.rows relation, d.attrName = []) :
      Destruction db relation (.badCatParm, db.trim relation)
  | left (given : relation ≠ []) (user : UserName relation) (described : db.rows relation ≠ [])
      (named : ∀ d ∈ db.rows relation, d.attrName ≠ [])
      (cause : status = .fileOpen ∧ 0 < db.openCnt relation ∨ status = .unixErr ∧
        db.present relation = false) :
      Destruction db relation (status, db.remove relation user)
  | destroyed (user : UserName relation) (described : db.rows relation ≠ [])
      (named : ∀ d ∈ db.rows relation, d.attrName ≠ []) (unopened : db.openCnt relation = 0)
      (there : db.present relation = true) :
      Destruction db relation
        (.ok, { db.remove relation user with present := update db.present relation false })

theorem destroyRel_cases (db : Database) (relation : Name) :
    Destruction db relation (db.destroyRel relation) := by
  unfold destroyRel
  split_ifs with own none nameless
  · exact .refused own
  · exact .unknown none
  · exact .stopped (not_or.mp own).1 (not_or.mp (not_or.mp own).2) nameless
  · have named : ∀ d ∈ db.rows relation, d.attrName ≠ [] := fun d member empty =>
      nameless ⟨d, member, empty⟩
    unfold destroyFile
    split_ifs with isOpen there
    · exact .left (not_or.mp own).1 _ none named (.inl ⟨rfl, isOpen⟩)
    · exact .destroyed _ none named (Nat.eq_zero_of_not_pos isOpen) there
    · exact .left (not_or.mp own).1 _ none named (.inr ⟨rfl, Bool.eq_false_of_not_eq_true there⟩)

theorem destroyRel_ok (given : relation ≠ []) (user : UserName relation)
    (described : db.rows relation ≠ []) (named : ∀ d ∈ db.rows relation, d.attrName ≠ [])
    (unopened : db.openCnt relation = 0) (there : db.present relation = true) :
    (db.destroyRel relation).1 = .ok := by
  have foreign : ¬ (relation = [] ∨ relation = relCatName ∨ relation = attrCatName) := by
    simp [given, user.1, user.2]
  have nameless : ¬ ∃ d ∈ db.rows relation, d.attrName = [] := fun ⟨d, member, empty⟩ =>
    named d member empty
  have closed : ¬ 0 < (db.remove relation user).openCnt relation := by
    rw [show (db.remove relation user).openCnt = db.openCnt from rfl, unopened]
    exact Nat.lt_irrefl 0
  have present : (db.remove relation user).present relation = true := there
  simp only [destroyRel, foreign, described, nameless, destroyFile, closed, dite_false, if_false]
  exact congrArg Prod.fst (if_pos present)

/-! Other relations keep their entries. -/

theorem createRel_others (db : Database) (attrList : List AttrInfo) (apart : other ≠ relation) :
    (db.createRel relation attrList).2.rel other = db.rel other ∧
      (db.createRel relation attrList).2.rows other = db.rows other := by
  have outcome := db.createRel_cases relation attrList
  generalize db.createRel relation attrList = result at outcome
  cases outcome <;> simp [entered, update_of_ne apart]

theorem destroyRel_others (db : Database) (apart : other ≠ relation) :
    (db.destroyRel relation).2.rel other = db.rel other ∧
      (db.destroyRel relation).2.rows other = db.rows other := by
  have outcome := db.destroyRel_cases relation
  generalize db.destroyRel relation = result at outcome
  cases outcome <;> simp [update_of_ne apart]

end Database
end Minirel
