import Minirel.Catalog.Database

/-! The catalog files and the directory realize a database, and the calls that
create and destroy relations compute what they do to it. -/
namespace Minirel
open Function

structure Directory (st : Flat) (db : Database) : Prop where
  present : ∀ name, db.present name = (st.files name).isSome
  openCnt : db.openCnt = st.openCnt
  creatable : db.creatable = st.creatable

structure Realizes (st : Flat) (db : Database) : Prop where
  catalogs : Represents st db.toCatalog
  directory : Directory st db

variable {st st' : Flat} {cat : Catalog} {db : Database} {relation : Name}
    {attrList attrs : List AttrInfo}

/-! Attributes are entered one after the other. Each is sealed before the next
one comes, so that they are met in this order. -/

section enter
variable {front back : List (RID × AttrDesc)} {offset : Int}

theorem TableAt.put_self {α : Type} {enc : α → List UInt8} {file : Name}
    {front back : List (RID × α)} (table : TableAt st file enc front back) :
    ∃ g, st.put file g = st := by
  obtain ⟨f, _, _, there, _⟩ := table
  exact ⟨f, Flat.put_self there⟩

theorem addAttrs_rows (name : CName relation) (terminated : ∀ attr ∈ attrs, 0 ∉ attr.attrName)
    (fits : int offset = offset) (table : TableAt st attrCatName AttrDesc.bytes front back)
    (valid : ∀ r ∈ front ++ back, r.2.Valid) (new : ofRelation relation back = []) :
    ∃ g rows, Flat.run (RelCatalog.addAttrs relation offset attrs) st =
        some (if ∀ attr ∈ attrs, attr.Short then .ok else .nameTooLong, st.put attrCatName g) ∧
      Table (st.put attrCatName g) attrCatName AttrDesc.bytes rows ∧ (∀ r ∈ rows, r.2.Valid) ∧
      (ofRelation relation rows).map Prod.snd =
        (ofRelation relation front).map Prod.snd ++ describe relation offset (storable attrs) ∧
      ∀ other ≠ relation, ofRelation other rows = ofRelation other (front ++ back) := by
  induction attrs generalizing st front back offset with
  | nil =>
    obtain ⟨g, same⟩ := table.put_self
    refine ⟨g, front ++ back, ?_, ?_, valid, by simp [new, storable, describe], fun _ _ => rfl⟩
    · rw [same]
      rfl
    · rw [same]
      exact table.table
  | cons attr attrs ih =>
    rw [List.forall_mem_cons] at terminated
    by_cases short : attr.Short
    · let ad : AttrDesc := ⟨relation, attr.attrName, offset, int attr.attrType, int attr.attrLen⟩
      have validAd : ad.Valid := ⟨name, ⟨terminated.1, short⟩, fits, int_int _, int_int _⟩
      have size : ad.bytes.length = 76 := validAd.bytes_length
      obtain ⟨rid, g, mid, rest, run, rfl, table'⟩ :=
        addRecord_spec (a := ad) table attrCatName_named (by omega) (by omega)
      rw [ofRelation_append, List.append_eq_nil_iff] at new
      have valid' : ∀ r ∈ front ++ mid ++ [(rid, ad)] ++ rest, r.2.Valid := by
        intro r member
        simp only [List.append_assoc, List.mem_append, List.mem_singleton] at member
        rcases member with h | h | rfl | h
        · exact valid r (by simp [h])
        · exact valid r (by simp [h])
        · exact validAd
        · exact valid r (by simp [h])
      obtain ⟨g', rows, run', table'', valid'', ownRows, others⟩ :=
        ih terminated.2 (int_int (offset + ad.attrLen)) table' valid' new.2
      rw [Flat.put_put] at run' table''
      refine ⟨g', rows, ?_, table'', valid'', ?_, fun other apart => ?_⟩
      · have added : Flat.run (AttrCatalog.addInfo ad) st = some (.ok, st.put attrCatName g) := run
        rw [RelCatalog.addAttrs, if_neg (Nat.not_le.mpr short), Flat.run, Program.run_bind_of _ _ added]
        simp only [ne_eq, not_true_eq_false, if_false, List.forall_mem_cons, short, true_and]
        exact run'
      · have own : ofRelation relation [(rid, ad)] = [(rid, ad)] := by simp [ofRelation, ad]
        rw [ownRows, storable_cons_short short]
        simp only [ofRelation_append, own, new.1, List.map_append, List.append_assoc]
        rfl
      · rw [others other apart]
        have foreign : ofRelation other [(rid, ad)] = [] := by simpa [ofRelation, ad] using apart.symm
        simp only [ofRelation_append, foreign, List.append_assoc, List.nil_append]
    · obtain ⟨g, same⟩ := table.put_self
      refine ⟨g, front ++ back, ?_, ?_, valid, ?_, fun _ _ => rfl⟩
      · rw [RelCatalog.addAttrs, if_pos (Nat.not_lt.mp short), same]
        simp only [List.forall_mem_cons, short, false_and, if_false]
        rfl
      · rw [same]
        exact table.table
      · simp [new, storable_cons_long short, describe]

/-- Attributes are entered up to the first whose name is too long. -/
theorem addAttrs_spec (rep : Represents st cat) (name : CName relation)
    (terminated : ∀ attr ∈ attrs, 0 ∉ attr.attrName) (new : cat.rows relation = []) :
    ∃ g, Flat.run (RelCatalog.addAttrs relation 0 attrs) st =
        some (if ∀ attr ∈ attrs, attr.Short then .ok else .nameTooLong, st.put attrCatName g) ∧
      Represents (st.put attrCatName g)
        (cat.setRows relation (describe relation 0 (storable attrs))) := by
  obtain ⟨⟨rels, relTable, rest⟩, rows, table, valid, listed⟩ := rep
  have none : ofRelation relation rows = [] := List.map_eq_nil_iff.mp ((listed relation).trans new)
  obtain ⟨g, rows', run, table', valid', own, others⟩ :=
    addAttrs_rows name terminated (show int 0 = 0 from rfl) table.at (by simpa using valid) none
  refine ⟨g, run, ⟨rels, relTable.congr (Flat.files_put_of_ne _ catNames_ne), rest⟩, rows', table',
    valid', ?_⟩
  intro other
  by_cases same : other = relation
  · subst same
    rw [own, Catalog.rows_setRows]
    rfl
  · rw [others other same, Catalog.rows_setRows_of_ne same]
    exact listed other

end enter

/-! Files. -/

namespace Directory
variable {name : Name} {f : FlatFile}

theorem put (directory : Directory st db) (there : st.files name ≠ none) :
    Directory (st.put name f) db := by
  refine ⟨fun other => ?_, directory.openCnt, directory.creatable⟩
  rw [directory.present]
  by_cases same : other = name
  · subst same
    rw [Flat.files_put, Option.isSome_some, Option.isSome_iff_ne_none]
    exact there
  · rw [Flat.files_put_of_ne _ same]

theorem known_iff (directory : Directory st db) :
    (0 < db.openCnt name ∨ db.present name = true) ↔
      (0 < st.openCnt name ∨ st.files name ≠ none) := by
  rw [directory.present, directory.openCnt, Option.isSome_iff_ne_none]

end Directory

structure OnlyFile (relation : Name) (st st' : Flat) : Prop where
  others : ∀ name, UserName name → name ≠ relation → st'.files name = st.files name
  own : st'.files relation = st.files relation ∨ st'.files relation = none ∨
    Table st' relation (id : List UInt8 → _) []

namespace OnlyFile

theorem of_same (same : ∀ name, UserName name → st'.files name = st.files name)
    (user : UserName relation) :
    OnlyFile relation st st' :=
  ⟨fun name user _ => same name user, .inl (same relation user)⟩

/-- Before that the catalogs were written. -/
theorem after_catalogs {f g : FlatFile}
    (only : OnlyFile relation ((st.put relCatName f).put attrCatName g) st')
    (user : UserName relation) : OnlyFile relation st st' := by
  have same (name : Name) (user : UserName name) :
      ((st.put relCatName f).put attrCatName g).files name = st.files name := by
    rw [Flat.files_put_of_ne _ user.2, Flat.files_put_of_ne _ user.1]
  refine ⟨fun name user' apart => (only.others name user' apart).trans (same name user'),
    only.own.imp_left fun kept => ?_⟩
  exact kept.trans (same relation user)

end OnlyFile

theorem createHeapFile_refines {name : Name} (real : Realizes st db) (user : UserName name)
    (named : name ≠ []) :
    ∃ st', Flat.run (createHeapFile name) st = some ((db.createFile name).1, st') ∧
      Realizes st' (db.createFile name).2 ∧ OnlyFile name st st' := by
  obtain ⟨catalogs, directory⟩ := real
  obtain ⟨⟨status, st'⟩, run, creation⟩ := createHeapFile_cases st name
  refine ⟨st', ?_⟩
  rw [run, Database.createFile]
  cases creation with
  | nameless empty => exact absurd empty named
  | known _ known =>
    rw [if_pos (directory.known_iff.mpr known)]
    refine ⟨rfl, ⟨catalogs.congr rfl rfl, directory.present, ?_, directory.creatable⟩,
      .of_same (fun _ _ => rfl) user⟩
    simp only [directory.openCnt]
    rfl
  | refused _ absent unopened refused =>
    have unknown : ¬ (0 < db.openCnt name ∨ db.present name = true) := by
      rw [directory.known_iff]
      simp [absent, unopened]
    rw [if_neg unknown, if_neg (by rw [directory.creatable, refused]; simp)]
    exact ⟨rfl, ⟨catalogs, directory⟩, .of_same (fun _ _ => rfl) user⟩
  | created _ absent unopened creatable =>
    have unknown : ¬ (0 < db.openCnt name ∨ db.present name = true) := by
      rw [directory.known_iff]
      simp [absent, unopened]
    rw [if_neg unknown, if_pos (by rw [directory.creatable, creatable])]
    refine ⟨rfl, ⟨catalogs.congr (Flat.files_put_of_ne _ user.1.symm)
      (Flat.files_put_of_ne _ user.2.symm),
      fun other => ?_, directory.openCnt, directory.creatable⟩, fun _ _ apart =>
        Flat.files_put_of_ne _ apart,
      .inr (.inr (newFile_table st name))⟩
    simp only [Flat.put, update_apply]
    split
    · rfl
    · exact directory.present other

theorem destroyHeapFile_refines {name : Name} (real : Realizes st db) (user : UserName name)
    (named : name ≠ []) :
    ∃ st', Flat.run (destroyHeapFile name) st = some ((db.destroyFile name).1, st') ∧
      Realizes st' (db.destroyFile name).2 ∧ OnlyFile name st st' := by
  obtain ⟨catalogs, directory⟩ := real
  have present := directory.present name
  rw [destroyHeapFile, Database.destroyFile]
  by_cases isOpen : 0 < db.openCnt name
  · rw [if_pos isOpen]
    rw [directory.openCnt] at isOpen
    exact ⟨st, Flat.run_destroyFile_open isOpen named, ⟨catalogs, directory⟩,
      .of_same (fun _ _ => rfl) user⟩
  rw [if_neg isOpen]
  rw [directory.openCnt, Nat.pos_iff_ne_zero, not_not] at isOpen
  cases there : st.files name with
  | none =>
    rw [if_neg (by simp [present, there])]
    exact ⟨st, Flat.run_destroyFile_absent there isOpen named, ⟨catalogs, directory⟩,
      .of_same (fun _ _ => rfl) user⟩
  | some f =>
    rw [if_pos (by simp [present, there])]
    refine ⟨_, Flat.run_destroyFile there isOpen named,
      ⟨catalogs.congr (update_of_ne user.1.symm ..) (update_of_ne user.2.symm ..),
      fun other => ?_, directory.openCnt, directory.creatable⟩, fun _ _ apart => update_of_ne apart ..,
      .inr (.inl (update_self ..))⟩
    simp only [update_apply]
    split
    · rfl
    · exact directory.present other

/-! Relations. -/

theorem Represents.relCat_there (rep : Represents st cat) : st.files relCatName ≠ none := by
  obtain ⟨_, ⟨f, _, _, there, _⟩, _⟩ := rep.rels
  simp [there]

theorem Represents.attrCat_there (rep : Represents st cat) : st.files attrCatName ≠ none := by
  obtain ⟨_, ⟨f, _, _, there, _⟩, _⟩ := rep.attrs
  simp [there]

/-- Only names that fit have rows. -/
theorem Represents.rows_eq_nil (rep : Represents st cat) (long : maxName ≤ relation.length) :
    cat.rows relation = [] := by
  obtain ⟨rows, _, valid, listed⟩ := rep.attrs
  rw [← listed, List.map_eq_nil_iff, ofRelation, List.filter_eq_nil_iff]
  intro r member same
  have fits := (valid r member).relName.fits
  rw [of_decide_eq_true same] at fits
  omega

theorem Database.userName_of_unlisted (unlisted : db.rel relation = none) : UserName relation := by
  constructor
  · rintro rfl
    exact db.catalogs.1 unlisted
  · rintro rfl
    exact db.catalogs.2 unlisted

theorem enter_refines (real : Realizes st db) (name : CName relation)
    (unlisted : db.rel relation = none) (terminated : ∀ attr ∈ attrList, 0 ∉ attr.attrName)
    (attrCnt : Int) :
    ∃ f g, Flat.run (RelCatalog.addInfo ⟨relation, int attrCnt⟩) st =
      some (.ok, st.put relCatName f) ∧ Flat.run (RelCatalog.addAttrs relation 0 attrList)
        (st.put relCatName f) =
          some (if ∀ attr ∈ attrList, attr.Short then .ok else .nameTooLong,
            (st.put relCatName f).put attrCatName g) ∧
      Realizes ((st.put relCatName f).put attrCatName g)
        (db.enter relation (int attrCnt) (describe relation 0 (storable attrList))) := by
  obtain ⟨catalogs, directory⟩ := real
  have valid : RelDesc.Valid ⟨relation, int attrCnt⟩ := ⟨name, int_int _⟩
  obtain ⟨f, addRel, rep⟩ := RelCatalog.addInfo_spec catalogs valid unlisted
  obtain ⟨g, addRows, rep'⟩ := addAttrs_spec rep name terminated (db.described relation unlisted)
  have files := (directory.put (f := f) catalogs.relCat_there).put (f := g) rep.attrCat_there
  exact ⟨_, _, addRel, addRows, rep', files.present, files.openCnt, files.creatable⟩

theorem createRel_refused {status : Status} (real : Realizes st db) (terminated : 0 ∉ relation)
    (refused : db.refusal relation attrList = some status) :
    Program.Returns Flat.handle (RelCatalog.createRel · relation attrList) st (status, st) := by
  unfold Database.refusal at refused
  simp only [RelCatalog.createRel]
  by_cases bad : relation = [] ∨ attrList.length < 1
  · rw [if_pos bad] at refused
    cases refused
    simp only [bad, if_true]
    exact .of_run rfl
  rw [if_neg bad] at refused
  simp only [bad, if_false]
  by_cases long : relation.length ≥ maxName
  · rw [if_pos long] at refused
    cases refused
    simp only [long, if_true]
    exact .of_run rfl
  rw [if_neg long] at refused
  simp only [long, if_false]
  have info := RelCatalog.getInfo_spec real.catalogs terminated (not_or.mp bad).1
  cases listed : db.rel relation with
  | some n =>
    rw [listed] at info refused
    cases refused
    exact .bind info (.of_run rfl)
  | none =>
    rw [listed] at info refused
    rw [if_neg (by simp)] at refused
    refine .bind info (.of_run ?_)
    simp only [ne_eq, not_true_eq_false, if_false]
    by_cases distinct : (attrList.map AttrInfo.attrName).Nodup
    swap
    · rw [if_pos distinct] at refused
      cases refused
      simp only [distinct, not_false_eq_true, if_true]
      rfl
    rw [if_neg (not_not.mpr distinct)] at refused
    by_cases wide : RelCatalog.tupleWidth attrList > pageSize
    swap
    · rw [if_neg wide] at refused
      cases refused
    rw [if_pos wide] at refused
    cases refused
    simp only [distinct, wide, not_true_eq_false, if_false, if_true]
    rfl

theorem createRel_files (real : Realizes st db) (terminated : 0 ∉ relation)
    (attrTerminated : ∀ attr ∈ attrList, 0 ∉ attr.attrName) :
    ∃ st', Program.Returns Flat.handle (RelCatalog.createRel · relation attrList) st
        ((db.createRel relation attrList).1, st') ∧
          Realizes st' (db.createRel relation attrList).2 ∧
      (UserName relation → OnlyFile relation st st') := by
  cases checked : db.refusal relation attrList with
  | some status =>
    simp only [Database.createRel, checked]
    exact ⟨st, createRel_refused real terminated checked, real, .of_same fun _ _ => rfl⟩
  | none =>
    obtain ⟨named, nonempty, fits, unlisted, distinct, width⟩ := Database.refusal_eq_none.mp checked
    have good : ¬ (relation = [] ∨ attrList.length < 1) := by
      have := List.length_pos_iff.mpr nonempty
      rw [not_or]
      exact ⟨named, by omega⟩
    have info := RelCatalog.getInfo_spec real.catalogs terminated named
    rw [unlisted] at info
    obtain ⟨f, g, addRel, addRows, entered⟩ :=
      enter_refines real ⟨terminated, fits⟩ unlisted attrTerminated attrList.length
    simp only [RelCatalog.createRel, Database.createRel, checked, good, Nat.not_le.mpr fits, distinct,
      not_lt.mpr width, cString_of_terminated terminated, ne_eq, not_true_eq_false, if_false]
    by_cases short : ∀ attr ∈ attrList, attr.Short
    · obtain ⟨st', create, real', only⟩ :=
        createHeapFile_refines entered (Database.userName_of_unlisted unlisted) named
      rw [if_pos short] at addRows ⊢
      exact ⟨st', .bind info (.after addRel (.after addRows (.of_run create))), real',
        only.after_catalogs⟩
    · rw [if_neg short] at addRows ⊢
      exact ⟨_, .bind info (.after addRel (.after addRows (.of_run rfl))), entered, fun user =>
        (OnlyFile.of_same (fun _ _ => rfl) user).after_catalogs user⟩

/-- `createRel` does to the files what it does to the abstract database. -/
theorem createRel_refines (real : Realizes st db) (terminated : 0 ∉ relation)
    (attrTerminated : ∀ attr ∈ attrList, 0 ∉ attr.attrName) :
    ∃ st', Program.Returns Flat.handle (RelCatalog.createRel · relation attrList) st
        ((db.createRel relation attrList).1, st') ∧
          Realizes st' (db.createRel relation attrList).2 := by
  obtain ⟨st', returns, real', -⟩ := createRel_files real terminated attrTerminated
  exact ⟨st', returns, real'⟩

/-- The rows are removed in the order in which they were listed, each by its
name, until a name is empty. -/
theorem removeAll_spec {rows : List AttrDesc} (rep : Represents st cat) (terminated : 0 ∉ relation)
    (named : relation ≠ []) (listed : cat.rows relation = rows) :
    ∃ g, Program.Returns Flat.handle (AttrCatalog.removeAll · relation rows) st
        (if ∃ d ∈ rows, d.attrName = [] then .badCatParm else .ok, st.put attrCatName g) ∧
      Represents (st.put attrCatName g)
        (cat.setRows relation (rows.dropWhile fun d => d.attrName ≠ [])) := by
  have unchanged : ∃ g, st.put attrCatName g = st := by
    obtain ⟨_, table, _⟩ := rep.attrs
    exact table.at.put_self
  induction rows generalizing st cat with
  | nil =>
    obtain ⟨g, same⟩ := unchanged
    refine ⟨g, ?_, ?_⟩
    · rw [same, if_neg (by simp)]
      exact .of_run rfl
    · rw [same, List.dropWhile_nil, Catalog.setRows_self listed]
      exact rep
  | cons d rows ih =>
    by_cases empty : d.attrName = []
    · obtain ⟨g, same⟩ := unchanged
      refine ⟨g, ?_, ?_⟩
      · rw [same, if_pos ⟨d, List.mem_cons_self, empty⟩]
        exact .bind (empty ▸ AttrCatalog.removeInfo_nameless st relation) (.of_run rfl)
      · rw [same, List.dropWhile_cons_of_neg (by simpa using empty), Catalog.setRows_self listed]
        exact rep
    · obtain ⟨g, removed, rep'⟩ := AttrCatalog.removeInfo_spec rep terminated named empty
        (show cat.rows relation = [] ++ d :: rows from listed) (by simp)
      have unchanged' : ∃ h, (st.put attrCatName g).put attrCatName h = st.put attrCatName g :=
        ⟨g, by simp⟩
      obtain ⟨h, rest, rep''⟩ := ih rep' (Catalog.rows_setRows ..) unchanged'
      rw [Flat.put_put] at rest rep''
      refine ⟨h, .bind removed ?_, ?_⟩
      · simp only [ne_eq, not_true_eq_false, if_false, List.exists_mem_cons_iff, empty, false_or]
        exact rest
      · rw [List.dropWhile_cons_of_pos (by simpa using empty)]
        rw [Catalog.setRows_setRows] at rep''
        exact rep''

/-- The rows go up to the first attribute without a name. -/
theorem dropRelation_spec (rep : Represents st cat) (terminated : 0 ∉ relation)
    (named : relation ≠ []) (described : cat.rows relation ≠ []) :
    ∃ g, Program.Returns Flat.handle (AttrCatalog.dropRelation · relation) st
        (if ∃ d ∈ cat.rows relation, d.attrName = [] then .badCatParm else .ok,
          st.put attrCatName g) ∧
      Represents (st.put attrCatName g)
        (cat.setRows relation ((cat.rows relation).dropWhile fun d => d.attrName ≠ [])) := by
  have info := AttrCatalog.getRelInfo_spec rep terminated named
  rw [if_neg described] at info
  obtain ⟨g, removed, rep'⟩ := removeAll_spec rep terminated named rfl
  refine ⟨g, ?_, rep'⟩
  simp only [AttrCatalog.dropRelation, named, if_false]
  exact .bind info removed

theorem dropRelation_unknown (rep : Represents st cat) (terminated : 0 ∉ relation)
    (named : relation ≠ []) (none : cat.rows relation = []) :
    Program.Returns Flat.handle (AttrCatalog.dropRelation · relation) st (.relNotFound, st) := by
  have info := AttrCatalog.getRelInfo_spec rep terminated named
  rw [if_pos none] at info
  simp only [AttrCatalog.dropRelation, named, if_false]
  exact .bind info (.of_run rfl)

theorem destroyRel_own (st : Flat)
    (own : relation = [] ∨ relation = relCatName ∨ relation = attrCatName) :
    Program.Returns Flat.handle (RelCatalog.destroyRel · relation) st (.badCatParm, st) := by
  simp only [RelCatalog.destroyRel, own, if_true]
  exact .of_run rfl

theorem destroyRel_unknown (rep : Represents st cat) (terminated : 0 ∉ relation)
    (named : relation ≠ []) (user : UserName relation) (none : cat.rows relation = []) :
    Program.Returns Flat.handle (RelCatalog.destroyRel · relation) st (.relNotFound, st) := by
  simp only [RelCatalog.destroyRel, named, user.1, user.2, or_self, if_false]
  exact .bind (dropRelation_unknown rep terminated named none) (.of_run rfl)

/-- A first attribute without a name keeps the call from removing anything. -/
theorem destroyRel_nameless {d : AttrDesc} {rows : List AttrDesc} (rep : Represents st cat)
    (terminated : 0 ∉ relation) (named : relation ≠ []) (user : UserName relation)
    (listed : cat.rows relation = d :: rows) (empty : d.attrName = []) :
    Program.Returns Flat.handle (RelCatalog.destroyRel · relation) st (.badCatParm, st) := by
  have info := AttrCatalog.getRelInfo_spec rep terminated named
  rw [listed, if_neg (by simp)] at info
  simp only [RelCatalog.destroyRel, AttrCatalog.dropRelation, named, user.1, user.2, or_self, if_false]
  have removed := AttrCatalog.removeInfo_nameless st relation
  rw [← empty] at removed
  exact .bind (.bind info (.bind removed (.of_run rfl))) (.of_run rfl)

theorem destroyRel_files (real : Realizes st db) (terminated : 0 ∉ relation) :
    ∃ st', Program.Returns Flat.handle (RelCatalog.destroyRel · relation) st
      ((db.destroyRel relation).1, st') ∧ Realizes st' (db.destroyRel relation).2 ∧
        (UserName relation → OnlyFile relation st st') := by
  obtain ⟨catalogs, directory⟩ := real
  by_cases own : relation = [] ∨ relation = relCatName ∨ relation = attrCatName
  · simp only [Database.destroyRel, own, dite_true]
    exact ⟨st, destroyRel_own st own, ⟨catalogs, directory⟩, .of_same fun _ _ => rfl⟩
  obtain ⟨named, foreign⟩ := not_or.mp own
  have user : UserName relation := not_or.mp foreign
  simp only [Database.destroyRel, own, dite_false]
  by_cases none : db.rows relation = []
  · simp only [none, if_true]
    exact ⟨st, destroyRel_unknown catalogs terminated named user none, ⟨catalogs, directory⟩,
      .of_same fun _ _ => rfl⟩
  simp only [RelCatalog.destroyRel, own, none, if_false]
  obtain ⟨g, dropped, rep⟩ := dropRelation_spec catalogs terminated named none
  have files := directory.put (f := g) catalogs.attrCat_there
  by_cases nameless : ∃ d ∈ db.rows relation, d.attrName = []
  · rw [if_pos nameless] at dropped ⊢
    exact ⟨_, .bind dropped (.of_run rfl), ⟨rep, files.present, files.openCnt, files.creatable⟩,
      .of_same fun _ user => Flat.files_put_of_ne _ user.2⟩
  · have whole : (db.rows relation).dropWhile (fun d => d.attrName ≠ []) = [] := by
      rw [List.dropWhile_eq_nil_iff]
      intro d member
      exact decide_eq_true fun empty => nameless ⟨d, member, empty⟩
    rw [if_neg nameless] at dropped ⊢
    rw [whole] at rep
    have listed : (db.toCatalog.setRows relation []).rel relation ≠ Option.none :=
      fun unlisted => none (db.described relation unlisted)
    obtain ⟨f, removed, rep'⟩ := RelCatalog.removeInfo_some rep terminated named listed
    have files' := files.put (f := f) rep.relCat_there
    have real' : Realizes ((st.put attrCatName g).put relCatName f) (db.remove relation user) :=
      ⟨rep', files'.present, files'.openCnt, files'.creatable⟩
    obtain ⟨st', destroyed, real'', only⟩ := destroyHeapFile_refines real' user named
    rw [Flat.put_comm _ catNames_ne.symm] at only
    exact ⟨st', .bind dropped (.bind removed (.of_run destroyed)), real'', only.after_catalogs⟩

theorem destroyRel_refines (real : Realizes st db) (terminated : 0 ∉ relation) :
    ∃ st', Program.Returns Flat.handle (RelCatalog.destroyRel · relation) st
      ((db.destroyRel relation).1, st') ∧ Realizes st' (db.destroyRel relation).2 := by
  obtain ⟨st', returns, real', -⟩ := destroyRel_files real terminated
  exact ⟨st', returns, real'⟩

end Minirel
