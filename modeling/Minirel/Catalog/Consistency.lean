import Minirel.Catalog.History

/-! Whether the catalogs and the files agree after every call. There is no
rollback: a call that fails midway leaves behind what it did before. -/
namespace Minirel
open Transition Function

def History.made : History → Name → Bool
  | [], _ => false
  | (.createRel relation _, status) :: history, name =>
    if name = relation ∧ status = .ok then true else made history name
  | (.destroyRel relation, status) :: history, name =>
    if name = relation ∧ status = .ok then false else made history name

namespace Recorded

/-- A user relation has a row in `relcat` that counts `n` attributes exactly when
`attrcat` has `n` rows for it and the file created for it is there. -/
def Consistent (r : Recorded) : Prop :=
  ∃ rels attrs : List Entry, Table r.storage relCatName id rels ∧ Table r.storage attrCatName id attrs ∧
    ∀ relation, UserName relation → ∀ n : Int,
      (∃ e ∈ rels, RelDesc.ofBytes e.2 = ⟨relation, n⟩) ↔
        (attrs.filter fun e => (AttrDesc.ofBytes e.2).relName = relation).length = n ∧
          r.history.made relation = true ∧ r.storage.files relation ≠ none

end Recorded

/-! Storage determines the database. -/

section unique
variable {α : Type} {enc : α → List UInt8} {dec : List UInt8 → α} {rows : List (RID × α)}
    {st : Flat}
  {cat cat' : Catalog} {db db' : Database} {relation : Name}

theorem decode_stored (roundTrip : ∀ r ∈ rows, dec (enc r.2) = r.2) :
    (stored enc rows).map (fun e => (e.1, dec e.2)) = rows := by
  rw [stored, List.map_map]
  refine (List.map_congr_left fun r member => ?_).trans rows.map_id
  exact Prod.ext rfl (roundTrip r member)

theorem Table.rows_eq {file : Name} {rows' : List (RID × α)} (dec : List UInt8 → α)
    (table : Table st file enc rows) (table' : Table st file enc rows')
    (roundTrip : ∀ r ∈ rows, dec (enc r.2) = r.2) (roundTrip' : ∀ r ∈ rows', dec (enc r.2) = r.2) :
    rows = rows' := by
  rw [← decode_stored roundTrip, table.raw.unique table'.raw, decode_stored roundTrip']

theorem Represents.unique (rep : Represents st cat) (rep' : Represents st cat') : cat = cat' := by
  obtain ⟨⟨rels, table, valid, lists⟩, attrs, attrTable, attrValid, listed⟩ := rep
  obtain ⟨⟨rels', table', valid', lists'⟩, attrs', attrTable', attrValid', listed'⟩ := rep'
  obtain rfl := table.rows_eq RelDesc.ofBytes table' (fun r h => (valid r h).ofBytes_bytes)
    (fun r h => (valid' r h).ofBytes_bytes)
  obtain rfl := attrTable.rows_eq AttrDesc.ofBytes attrTable' (fun r h => (attrValid r h).ofBytes_bytes)
    (fun r h => (attrValid' r h).ofBytes_bytes)
  obtain ⟨rel, rows⟩ := cat
  obtain ⟨rel', rows'⟩ := cat'
  obtain rfl : rel = rel' := lists.unique lists'
  obtain rfl : rows = rows' := funext fun relation => (listed relation).symm.trans (listed' relation)
  rfl

theorem Realizes.unique (real : Realizes st db) (real' : Realizes st db') : db = db' := by
  have catalogs := real.catalogs.unique real'.catalogs
  have present : db.present = db'.present :=
    funext fun name => (real.directory.present name).trans (real'.directory.present name).symm
  have openCnt := real.directory.openCnt.trans real'.directory.openCnt.symm
  have creatable := real.directory.creatable.trans real'.directory.creatable.symm
  obtain ⟨cat, p, o, c, _, _⟩ := db
  obtain ⟨cat', p', o', c', _, _⟩ := db'
  cases catalogs
  cases present
  cases openCnt
  cases creatable
  rfl

end unique

namespace Database
variable {db : Database} {history : History} {relation : Name} {attrList : List AttrInfo}

def Agrees (rel : Option Int) (rows : List AttrDesc) (made present : Bool) : Prop :=
  ∀ n : Int, rel = some n ↔ rows.length = n ∧ made = true ∧ present = true

def Consistent (db : Database) (made : Name → Bool) : Prop :=
  ∀ relation, UserName relation → Agrees (db.rel relation) (db.rows relation) (made relation)
    (db.present relation)

theorem agrees_none {rows : List AttrDesc} {made present : Bool} :
    Agrees none rows made present ↔ ¬ (made = true ∧ present = true) := by
  constructor
  · intro agrees both
    cases (agrees rows.length).mpr ⟨rfl, both⟩
  · intro neither n
    simp only [reduceCtorEq, false_iff, not_and]
    intro _ first second
    exact neither ⟨first, second⟩

theorem agrees_some {k : Int} {rows : List AttrDesc} {made present : Bool} :
    Agrees (some k) rows made present ↔ rows.length = k ∧ made = true ∧ present = true := by
  constructor
  · intro agrees
    exact (agrees k).mp rfl
  · rintro ⟨rfl, rfl, rfl⟩ n
    simp

/-- A relation that passes the checks of `createRel` must have attribute names
that fit, and its file must be new and creatable; one whose rows `destroyRel`
removes must have no other nameless attribute than the first, and its file must
be there and not open. -/
def Safe (db : Database) : RelCall → Prop
  | .createRel relation attrList => db.Acceptable relation attrList →
    (∀ attr ∈ attrList, attr.Short) ∧ db.openCnt relation = 0 ∧ db.present relation = false ∧
      db.creatable relation = true
  | .destroyRel relation => relation ≠ [] → UserName relation → ∀ d rows, db.rows relation = d :: rows →
    d.attrName ≠ [] →
      (∀ d ∈ db.rows relation, d.attrName ≠ []) ∧ db.openCnt relation = 0 ∧ db.present relation = true

theorem Consistent.of_one {db' : Database} {made made' : Name → Bool} (relation : Name)
    (consistent : db.Consistent made)
    (others : ∀ name ≠ relation, db'.rel name = db.rel name ∧ db'.rows name = db.rows name ∧
      db'.present name = db.present name ∧ made' name = made name)
    (one : UserName relation →
      Agrees (db'.rel relation) (db'.rows relation) (made' relation) (db'.present relation)) :
    db'.Consistent made' := by
  intro name user
  by_cases same : name = relation
  · subst same
    exact one user
  · obtain ⟨rel, rows, present, made⟩ := others name same
    rw [rel, rows, present, made]
    exact consistent name user

theorem describe_length (relation : Name) (offset : Int) (attrs : List AttrInfo) :
    (describe relation offset attrs).length = attrs.length := by
  induction attrs generalizing offset with
  | nil => rfl
  | cons attr attrs ih => exact congrArg (· + 1) (ih _)

theorem safe_createRel (consistent : db.Consistent history.made) (fits : attrList.length < 2 ^ 31) :
    db.Safe (.createRel relation attrList) ↔ (db.createRel relation attrList).2.Consistent
      (History.made ((.createRel relation attrList, (db.createRel relation attrList).1) ::
        history)) := by
  have outcome := db.createRel_cases relation attrList
  generalize db.createRel relation attrList = result at outcome
  -- a relation entered without a file of its own
  have broken {db' : Database} {status : Status} (accepted : db.Acceptable relation attrList)
      (rel : db'.rel relation ≠ none) (present : db'.present = db.present) (failed : status ≠ .ok) :
      ¬ db'.Consistent (History.made ((.createRel relation attrList, status) :: history)) := by
    intro consistent'
    have user := userName_of_unlisted accepted.unlisted
    have before := consistent relation user
    have after := consistent' relation user
    obtain ⟨n, listed⟩ := Option.ne_none_iff_exists'.mp rel
    rw [accepted.unlisted, agrees_none] at before
    rw [listed, agrees_some, present, History.made, if_neg (fun h => failed h.2)] at after
    exact before after.2
  cases outcome with
  | refused refused =>
    have failed : ¬ db.Acceptable relation attrList := fun accepted => by
      rw [refusal_eq_none.mpr accepted] at refused
      cases refused
    rename_i status
    have notOk : status ≠ .ok := by
      rcases refusal_cases refused with rfl | rfl | ⟨rfl, _⟩ | ⟨rfl | rfl, _⟩ <;> decide
    have same : History.made ((.createRel relation attrList, status) :: history) = history.made :=
      funext fun name => if_neg fun h => notOk h.2
    refine iff_of_true (fun accepted => absurd accepted failed) ?_
    rw [same]
    exact consistent
  | stopped accepted long =>
    refine iff_of_false (fun safe => long (safe accepted).1) (broken accepted ?_ rfl (by simp))
    simp [entered]
  | known accepted short known =>
    refine iff_of_false (fun safe => ?_) (broken accepted ?_ rfl (by simp))
    · obtain ⟨_, unopened, absent, _⟩ := safe accepted
      simp [unopened, absent] at known
    · simp [entered]
  | uncreatable accepted short uncreatable =>
    refine iff_of_false (fun safe => ?_) (broken accepted ?_ rfl (by simp))
    · simp [(safe accepted).2.2.2] at uncreatable
    · simp [entered]
  | created accepted short unopened absent creatable =>
    refine iff_of_true (fun _ => ⟨short, unopened, absent, creatable⟩) ?_
    refine Consistent.of_one relation consistent (fun name apart => ?_) (fun _ => ?_)
    · simp [entered, History.made, apart]
    · have length : int attrList.length = attrList.length := int_of_fits (by omega) (by omega)
      simp [entered, History.made, agrees_some, describe_length, storable_of_short short, length]

theorem safe_destroyRel (consistent : db.Consistent history.made) :
    db.Safe (.destroyRel relation) ↔ (db.destroyRel relation).2.Consistent
      (History.made ((.destroyRel relation, (db.destroyRel relation).1) :: history)) := by
  have outcome := db.destroyRel_cases relation
  generalize db.destroyRel relation = result at outcome
  have unmade {status : Status} (failed : status ≠ .ok) :
      History.made ((.destroyRel relation, status) :: history) = history.made :=
    funext fun name => if_neg fun h => failed h.2
  -- rows are only there with an entry and a file
  have counted (user : UserName relation) (described : db.rows relation ≠ []) :
      ∃ n, db.rel relation = some n ∧ (db.rows relation).length = n ∧ history.made relation = true ∧
        db.present relation = true := by
    obtain ⟨n, listed⟩ := Option.ne_none_iff_exists'.mp fun unlisted =>
      described (db.described relation unlisted)
    have agrees := consistent relation user
    rw [listed, agrees_some] at agrees
    exact ⟨n, listed, agrees⟩
  cases outcome with
  | refused own =>
    rw [unmade (by simp)]
    refine iff_of_true (fun given user => ?_) consistent
    rcases own with rfl | rfl | rfl
    · exact absurd rfl given
    · exact absurd rfl user.1
    · exact absurd rfl user.2
  | unknown none =>
    rw [unmade (by simp)]
    refine iff_of_true (fun _ _ d rows listed => ?_) consistent
    rw [none] at listed
    cases listed
  | stopped given user nameless =>
    rw [unmade (by simp)]
    obtain ⟨e, member, empty⟩ := nameless
    obtain ⟨d, rows, listed⟩ := List.exists_cons_of_ne_nil (List.ne_nil_of_mem member)
    by_cases first : d.attrName = []
    · refine iff_of_true (fun _ _ d' rows' listed' named => ?_) ?_
      · cases listed.symm.trans listed'
        exact absurd first named
      · refine Consistent.of_one relation consistent (fun name apart => ?_) (fun _ => ?_)
        · simp [apart]
        · have kept : (db.rows relation).dropWhile (fun d => d.attrName ≠ []) = db.rows relation := by
            rw [listed, List.dropWhile_cons_of_neg (by simpa using first)]
          simp only [rel_trim, rows_trim, update_self, kept]
          exact consistent relation user
    · refine iff_of_false (fun safe => (safe given user d rows listed first).1 e member empty)
        fun consistent' => ?_
      obtain ⟨n, entry, count, _⟩ := counted user (by simp [listed])
      have after := consistent' relation user
      simp only [rel_trim, rows_trim, update_self, entry, agrees_some] at after
      have shorter := List.length_dropWhile_le (fun d : AttrDesc => decide (d.attrName ≠ [])) rows
      rw [listed, List.dropWhile_cons_of_pos (by simpa using first)] at after
      rw [listed, List.length_cons] at count
      omega
  | left given user described named cause =>
    obtain ⟨d, rows, listed⟩ := List.exists_cons_of_ne_nil described
    have first := named d (by simp [listed])
    obtain ⟨n, _, _, made, present⟩ := counted user described
    refine iff_of_false (fun safe => ?_) fun consistent' => ?_
    · obtain ⟨_, unopened, there⟩ := safe given user d rows listed first
      simp [unopened, there] at cause
    · have failed : ∀ status, (status = Status.fileOpen ∧ 0 < db.openCnt relation ∨
          status = .unixErr ∧ db.present relation = false) → status ≠ .ok := by
        rintro _ (⟨rfl, _⟩ | ⟨rfl, _⟩) <;> simp
      rw [unmade (failed _ cause)] at consistent'
      have after := consistent' relation user
      simp only [rel_remove, update_self, agrees_none] at after
      exact after ⟨made, present⟩
  | destroyed user described named unopened there =>
    refine iff_of_true (fun _ _ _ _ _ _ => ⟨named, unopened, there⟩) ?_
    refine Consistent.of_one relation consistent (fun name apart => ?_) (fun _ => ?_)
    · simp [History.made, apart]
    · simp [agrees_none]

/-- One call, on the abstract database. -/
theorem safe_iff {call : RelCall} (consistent : db.Consistent history.made)
    (wellFormed : call.WellFormed) :
    db.Safe call ↔ (call.apply db).2.Consistent
      (History.made ((call, (call.apply db).1) :: history)) := by
  cases call with
  | createRel relation attrList => exact safe_createRel consistent wellFormed.2.2
  | destroyRel relation => exact safe_destroyRel consistent

theorem initial_consistent (st : Flat) : (Database.initial st).Consistent (History.made []) := by
  intro relation user
  simp [initial, user.1, user.2, agrees_none, History.made]

end Database

section realized
variable {st st' : Flat} {db : Database} {history : History} {call : RelCall} {status : Status}

/-- A safe call that fails leaves all files as they are. -/
theorem files_of_failed (real : Realizes st db) (wellFormed : call.WellFormed) (safe : db.Safe call)
    (returns : Program.Returns Flat.handle call.prog st (status, st')) (failed : status ≠ .ok) :
    st'.files = st.files := by
  obtain ⟨st'', returns', _⟩ := RelCall.refines real wellFormed
  have answer := congrArg Prod.fst (returns.unique returns')
  have unchanged {status' : Status} (run : Program.Returns Flat.handle call.prog st (status', st)) :
      st'.files = st.files :=
    congrArg (fun r => r.2.files) (returns.unique run)
  cases call with
  | createRel relation attrList =>
    have outcome := db.createRel_cases relation attrList
    simp only [RelCall.apply] at answer
    generalize db.createRel relation attrList = result at outcome answer
    cases outcome with
    | refused refused => exact unchanged (createRel_refused real wellFormed.1 refused)
    | stopped accepted long => exact absurd (safe accepted).1 long
    | known accepted short known =>
      obtain ⟨_, unopened, absent, _⟩ := safe accepted
      simp [unopened, absent] at known
    | uncreatable accepted short uncreatable => simp [(safe accepted).2.2.2] at uncreatable
    | created => exact absurd answer failed
  | destroyRel relation =>
    have outcome := db.destroyRel_cases relation
    simp only [RelCall.apply] at answer
    by_cases own : relation = [] ∨ relation = relCatName ∨ relation = attrCatName
    · exact unchanged (destroyRel_own st own)
    obtain ⟨given, foreign⟩ := not_or.mp own
    have user : UserName relation := not_or.mp foreign
    generalize db.destroyRel relation = result at outcome answer
    cases outcome with
    | refused own' => exact absurd own' own
    | unknown none => exact unchanged (destroyRel_unknown real.catalogs wellFormed given user none)
    | stopped _ _ nameless =>
      obtain ⟨e, member, empty⟩ := nameless
      obtain ⟨d, rows, listed⟩ := List.exists_cons_of_ne_nil (List.ne_nil_of_mem member)
      by_cases first : d.attrName = []
      · exact unchanged (destroyRel_nameless real.catalogs wellFormed given user listed first)
      · exact absurd empty ((safe given user d rows listed first).1 e member)
    | left _ _ described named cause =>
      obtain ⟨d, rows, listed⟩ := List.exists_cons_of_ne_nil described
      obtain ⟨_, unopened, there⟩ := safe given user d rows listed (named d (by simp [listed]))
      simp [unopened, there] at cause
    | destroyed => exact absurd answer failed

theorem consistent_iff (real : Realizes st db) :
    Recorded.Consistent ⟨st, history⟩ ↔ db.Consistent history.made := by
  obtain ⟨rels, table, valid, lists⟩ := real.catalogs.rels
  obtain ⟨attrs, table', valid', listed⟩ := real.catalogs.attrs
  have entry (relation : Name) (n : Int) :
      (∃ e ∈ stored RelDesc.bytes rels, RelDesc.ofBytes e.2 = ⟨relation, n⟩) ↔
        db.rel relation = some n := by
    rw [lists.mem_iff, List.mem_map]
    constructor
    · rintro ⟨_, member, read⟩
      obtain ⟨r, member', rfl⟩ := List.mem_map.mp member
      rw [(valid r member').ofBytes_bytes] at read
      exact ⟨r, member', by rw [read]⟩
    · rintro ⟨r, member, pair⟩
      obtain ⟨name, count⟩ := Prod.mk.inj pair
      refine ⟨_, List.mem_map_of_mem member, ?_⟩
      rw [(valid r member).ofBytes_bytes, ← name, ← count]
  have count (relation : Name) : ((stored AttrDesc.bytes attrs).filter fun e =>
      (AttrDesc.ofBytes e.2).relName = relation).length = (db.rows relation).length := by
    rw [← listed relation, List.length_map, ofRelation, stored, List.filter_map, List.length_map]
    refine congrArg List.length (List.filter_congr fun r member => ?_)
    simp only [comp_apply, (valid' r member).ofBytes_bytes]
  have there (relation : Name) : st.files relation ≠ none ↔ db.present relation = true := by
    rw [real.directory.present, Option.isSome_iff_ne_none]
  constructor
  · rintro ⟨raw, raw', rawTable, rawTable', agrees⟩ relation user n
    obtain rfl := rawTable.unique table.raw
    obtain rfl := rawTable'.unique table'.raw
    have here := agrees relation user n
    rwa [entry, count, there] at here
  · intro agrees
    refine ⟨_, _, table.raw, table'.raw, fun relation user n => ?_⟩
    rw [entry, count, there]
    exact agrees relation user n

end realized

namespace Recorded

def Safe (st : Flat) (call : RelCall) : Prop := ∃ db, Realizes st db ∧ db.Safe call

/-- While every call is safe, catalogs and files agree and failed calls change no
file; and a call that is not safe breaks it. -/
theorem files_agree_of_safe {r : Recorded} (reached : Reachable Created (Step Safe) r) :
    r.Consistent ∧ ∀ call status st', call.WellFormed →
      Program.Returns Flat.handle call.prog r.storage (status, st') →
      (Safe r.storage call ↔ Consistent ⟨st', (call, status) :: r.history⟩ ∧
        (status ≠ .ok → st'.files = r.storage.files)) := by
  obtain ⟨st, history⟩ := r
  obtain ⟨db, real, consistent⟩ := realizes (fun db history => db.Consistent history.made)
    Database.initial_consistent
    (fun st db history c real consistent wellFormed safe => by
      obtain ⟨db', real', safe⟩ := safe
      cases real.unique real'
      exact (Database.safe_iff consistent wellFormed).mp safe)
    (fun _ _ _ consistent => consistent) reached
  refine ⟨(consistent_iff real).mpr consistent, fun call status st' wellFormed returns => ?_⟩
  obtain ⟨st'', returns', real'⟩ := RelCall.refines real wellFormed
  have same := returns.unique returns'
  cases same
  rw [consistent_iff real', ← Database.safe_iff consistent wellFormed]
  constructor
  · rintro ⟨db', real'', safe⟩
    cases real.unique real''
    exact ⟨safe, files_of_failed real wellFormed safe returns⟩
  · rintro ⟨safe, _⟩
    exact ⟨db, real, safe⟩

/-- A relation is created in a new database. -/
theorem files_agree_of_safe_created :
    let attrs : List AttrInfo := [⟨chars "r", chars "a", 1, 4, none⟩]
    ∃ st, Reachable Created (Step Safe) ⟨st, [(.createRel (chars "r") attrs, .ok)]⟩ ∧
      Consistent ⟨st, [(.createRel (chars "r") attrs, .ok)]⟩ := by
  intro attrs
  have run : ∃ st, Reachable Created (Step Safe) ⟨st, [(.createRel (chars "r") attrs, .ok)]⟩ :=
    exists_createRel (chars "r") attrs (by decide) ⟨by decide, by decide, by decide⟩
      (fun st real unopened absent creatable =>
        ⟨_, real, fun _ => ⟨by decide, unopened, by simp [Database.initial, absent], creatable⟩⟩)
      (fun _ => ⟨by decide, by decide, by decide, rfl, by decide, by decide⟩) (by decide)
  obtain ⟨st, reached⟩ := run
  exact ⟨st, reached, (files_agree_of_safe reached).1⟩

/-- A name of 32 characters is found too long when the relation and its first
attribute have been entered: they stay, without a file. -/
theorem entered_without_file :
    let attrs : List AttrInfo := [⟨chars "r", chars "a", 1, 4, none⟩,
      ⟨chars "r", chars "abcdefghijklmnopqrstuvwxyzabcdef", 1, 4, none⟩]
    ∃ st, Reachable Created (Step fun _ _ => True)
      ⟨st, [(.createRel (chars "r") attrs, .nameTooLong)]⟩ ∧
        ¬ Consistent ⟨st, [(.createRel (chars "r") attrs, .nameTooLong)]⟩ := by
  intro attrs
  obtain ⟨st, created, real, _⟩ := exists_created
  have wellFormed : (RelCall.createRel (chars "r") attrs).WellFormed :=
    ⟨by decide, by decide, by decide⟩
  have accepted : (Database.initial st).Acceptable (chars "r") attrs :=
    ⟨by decide, by decide, by decide, rfl, by decide, by decide⟩
  have long : ¬ ∀ attr ∈ attrs, attr.Short := by decide
  have answer : ((Database.initial st).createRel (chars "r") attrs).1 = .nameTooLong := by
    simp only [Database.createRel, Database.refusal_eq_none.mpr accepted, long, if_false]
  obtain ⟨st', returns, real'⟩ := RelCall.refines real wellFormed
  have broken := mt (Database.safe_iff (Database.initial_consistent st) wellFormed).mpr
    (fun safe => long (safe accepted).1)
  rw [← consistent_iff real'] at broken
  simp only [RelCall.apply, answer] at returns broken
  exact ⟨st', .next (.initial created) (.call wellFormed trivial returns), broken⟩

end Recorded
end Minirel
