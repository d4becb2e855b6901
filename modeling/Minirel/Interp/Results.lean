import Minirel.Interp.Sound

/-! Relations are created and destroyed, and queries are run into relations, on
storage as it is between statements. -/
namespace Minirel
open Program Function

/-! Creation and destruction. -/

structure Declarable (attrList : List AttrInfo) : Prop where
  terminated : ∀ attr ∈ attrList, 0 ∉ attr.attrName
  lengths : ∀ attr ∈ attrList, 1 ≤ attr.attrLen ∧ attr.attrLen ≤ pageSize
  few : attrList.length ≤ maxAttrs

variable {st st' : Flat} {db : Database} {relation other : Name} {attrList : List AttrInfo}
    {fuel : Nat} {status : Status}

theorem Declarable.sizes (declarable : Declarable attrList)
    (accepted : db.Acceptable relation attrList) :
    Sizes (describe relation 0 (storable attrList)) := by
  obtain ⟨rest, split⟩ := storable_isInit attrList
  have part : ∀ attr ∈ storable attrList, attr ∈ attrList := fun attr member =>
    split ▸ List.mem_append_left _ member
  have lengths : ∀ attr ∈ attrList, 1 ≤ attr.attrLen := fun attr member =>
    (declarable.lengths attr member).1
  have whole : (attrList.map AttrInfo.attrLen).sum ≤ pageSize := by
    have low := sum_lengths_nonneg lengths
    have high := List.sum_le_card_nsmul (attrList.map AttrInfo.attrLen) pageSize
      (List.forall_mem_map.mpr fun attr member => (declarable.lengths attr member).2)
    have few := declarable.few
    have width := accepted.width
    rw [RelCatalog.tupleWidth, Int.emod_eq_of_lt low] at width
    · exact width
    · simp only [pageSize, maxAttrs, List.length_map, nsmul_eq_mul] at high few ⊢
      omega
  have least : ((storable attrList).map AttrInfo.attrLen).sum ≤ pageSize := by
    have later : 0 ≤ (rest.map AttrInfo.attrLen).sum :=
      sum_lengths_nonneg fun attr member => lengths attr (split ▸ List.mem_append_right _ member)
    rw [← split, List.map_append, List.sum_append] at whole
    omega
  refine ⟨?_, fun d listed => ?_, ?_⟩
  · rw [describe_names]
    exact accepted.distinct.sublist ((storable_isInit attrList).sublist.map _)
  · obtain ⟨attr, member, -, -, -, length⟩ := describe_of_mem listed
    obtain ⟨low, high⟩ := declarable.lengths attr (part attr member)
    simp only [pageSize] at high
    rw [length, int, Int.bmod_eq_of_le (by omega) (by omega)]
    exact low
  · rw [describe_total _ _ (fun attr member => lengths attr (part attr member))
      (by simp only [pageSize] at least; omega)]
    exact least

theorem Database.createRel_sizes (declarable : Declarable attrList)
    (sizes : ∀ relation, Sizes (db.rows relation)) :
    Sizes ((db.createRel relation attrList).2.rows other) := by
  by_cases apart : other = relation
  swap
  · rw [(db.createRel_others attrList apart).2]
    exact sizes other
  subst apart
  have outcome := db.createRel_cases other attrList
  generalize db.createRel other attrList = result at outcome
  cases outcome with
  | refused => exact sizes other
  | stopped accepted | known accepted | uncreatable accepted | created accepted =>
    simp only [entered, rows_enter, update_self]
    exact declarable.sizes accepted

theorem Sizes.dropWhile {attrs : List AttrDesc} (p : AttrDesc → Bool) (sizes : Sizes attrs) :
    Sizes (attrs.dropWhile p) := by
  have suffix := List.dropWhile_suffix (l := attrs) p
  obtain ⟨front, split⟩ := id suffix
  have part : ∀ d ∈ attrs.dropWhile p, d ∈ attrs := fun d member => suffix.subset member
  refine ⟨sizes.distinct.sublist (suffix.sublist.map _), fun d member =>
    sizes.lengths d (part d member), ?_⟩
  have total := sizes.total
  have lengths : ∀ d ∈ front, 1 ≤ d.attrLen ∧ d.attrLen ≤ pageSize := fun d member =>
    sizes.attrLen (split ▸ List.mem_append_left _ member)
  have before := (AttrDesc.total_bounds lengths).1
  rw [← split, AttrDesc.total, List.map_append, List.sum_append] at total
  simp only [AttrDesc.total] at before total ⊢
  omega

theorem Database.destroyRel_sizes (sizes : ∀ relation, Sizes (db.rows relation)) :
    Sizes ((db.destroyRel relation).2.rows other) := by
  by_cases apart : other = relation
  swap
  · rw [(db.destroyRel_others apart).2]
    exact sizes other
  subst apart
  have outcome := db.destroyRel_cases other
  generalize db.destroyRel other = result at outcome
  cases outcome with
  | refused | unknown => exact sizes other
  | stopped =>
    simp only [rows_trim, update_self]
    exact (sizes other).dropWhile _
  | left | destroyed =>
    simp only [rows_remove, update_self]
    exact ⟨List.nodup_nil, List.forall_mem_nil _, by decide⟩

/-- A file is created, or was there and is left open. -/
inductive Database.Filed (db : Database) (relation : Name) (db' : Database) : Prop
  | same (present : db'.present = db.present) (openCnt : db'.openCnt = db.openCnt)
  | leftOpen (unlisted : db.rel relation = none)
      (known : 0 < db.openCnt relation ∨ db.present relation = true)
      (present : db'.present = db.present)
      (openCnt : db'.openCnt = update db.openCnt relation (db.openCnt relation + 1))
  | created (present : db'.present = update db.present relation true)
      (openCnt : db'.openCnt = db.openCnt)

theorem Database.createRel_filed (db : Database) (relation : Name) (attrList : List AttrInfo) :
    db.Filed relation (db.createRel relation attrList).2 ∧
      (db.createRel relation attrList).2.creatable = db.creatable := by
  unfold createRel
  cases checked : db.refusal relation attrList with
  | some status => exact ⟨.same rfl rfl, rfl⟩
  | none =>
    simp only [createFile]
    split_ifs with short known creatable
    · exact ⟨.leftOpen (refusal_eq_none.mp checked).unlisted known rfl rfl, rfl⟩
    · exact ⟨.created rfl rfl, rfl⟩
    · exact ⟨.same rfl rfl, rfl⟩
    · exact ⟨.same rfl rfl, rfl⟩

def Database.Linked (db : Database) : Prop := ∀ name, db.openCnt name ≠ 0 → db.present name = true

theorem Database.Filed.linked {db' : Database} (filed : db.Filed relation db')
    (linked : db.Linked) : db'.Linked := by
  intro name isOpen
  cases filed with
  | same present openCnt =>
    rw [openCnt] at isOpen
    rw [present]
    exact linked name isOpen
  | leftOpen _ known present openCnt =>
    rw [present]
    by_cases same : name = relation
    · rw [same]
      exact known.elim (fun positive => linked relation (by omega)) id
    · rw [openCnt, update_of_ne same] at isOpen
      exact linked name isOpen
  | created present openCnt =>
    rw [openCnt] at isOpen
    rw [present]
    by_cases same : name = relation
    · rw [same, update_self]
    · rw [update_of_ne same]
      exact linked name isOpen

theorem Database.destroyRel_linked (linked : db.Linked) : (db.destroyRel relation).2.Linked := by
  have outcome := db.destroyRel_cases relation
  generalize db.destroyRel relation = result at outcome
  cases outcome with
  | refused | unknown | stopped | left => exact linked
  | destroyed _ _ _ unopened there =>
    intro name isOpen
    have apart : name ≠ relation := fun same => isOpen (by rw [same]; exact unopened)
    simp only [update_of_ne apart]
    exact linked name isOpen

namespace Sound

theorem linked (sound : Sound st db) : db.Linked := by
  intro name isOpen
  rw [sound.real.directory.openCnt] at isOpen
  rw [sound.real.directory.present, Option.isSome_iff_ne_none]
  exact sound.opens name isOpen

theorem of_onlyFile {db' : Database} (sound : Sound st db) (real : Realizes st' db')
    (sizes : ∀ relation, Sizes (db'.rows relation)) (linked : db'.Linked)
    (only : OnlyFile relation st st') : Sound st' db' := by
  refine ⟨real, sizes, fun name user there => ?_, fun name isOpen => ?_⟩
  · by_cases same : name = relation
    · subst same
      rcases only.own with kept | absent | new
      · rw [kept] at there
        obtain ⟨records, table⟩ := sound.heaps name user there
        exact ⟨records, table.congr kept⟩
      · exact absurd absent there
      · exact ⟨[], new⟩
    · have kept := only.others name user same
      rw [kept] at there
      obtain ⟨records, table⟩ := sound.heaps name user there
      exact ⟨records, table.congr kept⟩
  · rw [← real.directory.openCnt] at isOpen
    rw [← Option.isSome_iff_ne_none, ← real.directory.present]
    exact linked name isOpen

theorem createRel (sound : Sound st db) (declarable : Declarable attrList)
    (terminated : 0 ∉ relation)
    (returned : Flat.run (RelCatalog.createRel fuel relation attrList) st = some (status, st')) :
    status = (db.createRel relation attrList).1 ∧ Sound st' (db.createRel relation attrList).2 := by
  by_cases user : UserName relation
  · obtain ⟨result, real, only⟩ :=
      RelCatalog.createRel_run sound.real terminated declarable.terminated returned
    exact ⟨result, sound.of_onlyFile real (fun _ => Database.createRel_sizes declarable sound.sizes)
      ((db.createRel_filed relation attrList).1.linked sound.linked) (only user)⟩
  · -- the catalogs are listed
    cases checked : db.refusal relation attrList with
    | none => exact absurd (Database.userName_of_unlisted
        (Database.refusal_eq_none.mp checked).unlisted) user
    | some refusal =>
      cases (RelCatalog.createRel_steady relation attrList).unique returned
        (createRel_refused sound.real terminated checked)
      simp only [Database.createRel, checked]
      exact ⟨trivial, sound⟩

theorem destroyRel (sound : Sound st db) (terminated : 0 ∉ relation)
    (returned : Flat.run (RelCatalog.destroyRel fuel relation) st = some (status, st')) :
    status = (db.destroyRel relation).1 ∧ Sound st' (db.destroyRel relation).2 := by
  by_cases user : UserName relation
  · obtain ⟨result, real, only⟩ := RelCatalog.destroyRel_run sound.real terminated returned
    exact ⟨result, sound.of_onlyFile real (fun _ => Database.destroyRel_sizes sound.sizes)
      (Database.destroyRel_linked sound.linked) (only user)⟩
  · have own : relation = [] ∨ relation = relCatName ∨ relation = attrCatName :=
      .inr ((not_and_or.mp user).imp not_not.mp not_not.mp)
    cases (RelCatalog.destroyRel_steady relation).unique returned (destroyRel_own st own)
    simp only [Database.destroyRel, own, dite_true]
    exact ⟨trivial, sound⟩

end Sound

/-! The calls of a query. -/

section calls
variable {attrs descs : List AttrDesc} {projNames : List AttrInfo} {result : Name}

theorem lastNamed_cases {attrName : Name} {desc : Option AttrDesc} {d : AttrDesc}
    (found : lastNamed attrName desc attrs = some d) : desc = some d ∨ d ∈ attrs ∧
      d.attrName = attrName := by
  induction attrs generalizing desc with
  | nil => exact .inl found
  | cons attr attrs ih =>
    rw [lastNamed_cons] at found
    rcases ih found with here | ⟨listed, name⟩
    · split at here
      next name =>
        cases here
        exact .inr ⟨List.mem_cons_self, name⟩
      next => exact .inl here
    · exact .inr ⟨List.mem_cons_of_mem _ listed, name⟩

/-- If no position is left without a descriptor, they are those of the list. -/
theorem projects_of_placed
    (placed : List.zipWith (fun proj desc => lastNamed proj.attrName desc attrs) projNames
    (projNames.map fun _ => none) = descs.map some) : Projects attrs projNames descs := by
  induction projNames generalizing descs with
  | nil =>
    cases descs with
    | nil => exact .nil
    | cons d descs => cases placed
  | cons proj projNames ih =>
    cases descs with
    | nil => cases placed
    | cons d descs =>
      rw [List.map_cons, List.zipWith_cons_cons, List.map_cons, List.cons.injEq] at placed
      exact .cons ((lastNamed_cases placed.1).resolve_left nofun) (ih placed.2)

theorem placeAttrs_measures (sizes : Sizes attrs) (nonempty : projNames ≠ [])
    (few : projNames.length ≤ pageSize) :
    Measures (placeAttrs projNames attrs (projNames.map fun _ => none) 0).1
      (placeAttrs projNames attrs (projNames.map fun _ => none) 0).2 := by
  intro descs placed
  rw [placeAttrs_fst (by simp)] at placed
  have projects := projects_of_placed placed
  have length : projNames.length = descs.length := List.Forall₂.length_eq projects
  rw [placeAttrs_spec sizes.distinct projects]
  obtain ⟨whole, low⟩ := int_total (fun d member => sizes.attrLen (projects.listed d member))
    (length ▸ few)
  refine ⟨whole, whole.symm ▸ low fun empty => nonempty ?_⟩
  rw [← List.length_eq_zero_iff, length, empty]
  rfl

/-- An output file that is not there is not opened, and the query does not go on. -/
theorem Sound.inserter (sound : Sound st db) {reply : Except Status HeapFile} {mid : Flat}
    (returned : Flat.run (InsertFileScan.new result) st = some (reply, mid)) :
    (∃ status, reply = .error status) ∨ result ≠ [] ∧ ∃ records, Table st result id records := by
  by_cases named : result = []
  · subst named
    cases returned
    exact .inl ⟨_, rfl⟩
  by_cases there : st.files result = none
  · rw [InsertFileScan.new_absent there (sound.unopened there) named] at returned
    cases returned
    exact .inl ⟨_, rfl⟩
  · exact .inr ⟨named, sound.table there⟩

theorem scanSelect_rewrites {given : List (Option AttrDesc)} {filter : Option Filter} {reclen : Int}
    (sound : Sound st db) (measures : Measures given reclen)
    (returned : Flat.run (scanSelect fuel result given filter reclen) st = some (status, st')) :
    Rewritten result st st' := by
  obtain ⟨reply, mid, new, rest⟩ := run_bind_inv _ _ returned
  rcases sound.inserter new with ⟨_, rfl⟩ | ⟨named, records, table⟩
  · cases rest
  · exact scanSelect_run measures table named returned

theorem joinScan_rewrites {attrDesc1 attrDesc2 : AttrDesc} {op : Operator} (sound : Sound st db)
    (measures : Measures (descs.map some) (int (descs.map AttrDesc.attrLen).sum))
    (returned : Flat.run (joinScan fuel result descs attrDesc1 op attrDesc2) st =
      some (status, st')) :
    Rewritten result st st' := by
  obtain ⟨reply, mid, new, rest⟩ := run_bind_inv _ _ returned
  rcases sound.inserter new with ⟨_, rfl⟩ | ⟨named, records, table⟩
  · cases rest
  · exact joinScan_run measures table named returned

theorem quSelect_run {atof : Name → Nat} {attr : Option AttrInfo} {op : Operator}
    {attrValue : Option Name} (sound : Sound st db) (few : projNames.length ≤ pageSize)
    (terminated : ∀ proj ∈ projNames, 0 ∉ proj.relName)
    (returned : Flat.run (quSelect atof fuel result projNames attr op attrValue) st =
      some (status, st')) :
    Rewritten result st st' := by
  unfold quSelect at returned
  split at returned
  · cases returned
    exact .nothing
  cases projNames with
  | nil => cases returned
  | cons first projNames =>
    obtain ⟨described, st, looked, rest⟩ := run_bind_inv _ _ returned
    obtain ⟨rfl, found⟩ :=
      AttrCatalog.getRelInfo_found sound.real.catalogs (terminated first List.mem_cons_self) looked
    cases described with
    | error =>
      cases rest
      exact .nothing
    | ok attrs =>
      obtain ⟨rfl, -⟩ := found attrs rfl
      have measures := placeAttrs_measures (sound.sizes first.relName)
        (List.cons_ne_nil first projNames) few
      cases attr with
      | none => exact scanSelect_rewrites sound measures rest
      | some attr =>
        simp only at rest
        split at rest
        next => cases rest
        next => exact scanSelect_rewrites sound measures rest

theorem lookupAttrs_run {reply : Except Status (List AttrDesc)} (sound : Sound st db)
    (terminated : ∀ proj ∈ projNames, 0 ∉ proj.relName)
    (returned : Flat.run (lookupAttrs fuel projNames) st = some (reply, st')) :
    st' = st ∧ ∀ descs, reply = .ok descs →
      descs.length = projNames.length ∧ ∀ d ∈ descs, 1 ≤ d.attrLen ∧ d.attrLen ≤ pageSize := by
  induction projNames generalizing reply st' with
  | nil =>
    cases returned
    refine ⟨rfl, ?_⟩
    rintro _ ⟨⟩
    exact ⟨rfl, nofun⟩
  | cons proj projNames ih =>
    obtain ⟨found, st, looked, rest⟩ := run_bind_inv _ _ returned
    obtain ⟨rfl, known⟩ :=
      AttrCatalog.getInfo_run sound.real.catalogs (terminated proj List.mem_cons_self) looked
    cases found with
    | error =>
      cases rest
      exact ⟨rfl, nofun⟩
    | ok d =>
      obtain ⟨more, mid, looked', rest'⟩ := run_bind_inv _ _ rest
      obtain ⟨rfl, listed⟩ :=
        ih (fun proj member => terminated proj (List.mem_cons_of_mem _ member)) looked'
      cases more with
      | error =>
        cases rest'
        exact ⟨rfl, nofun⟩
      | ok descs =>
        cases rest'
        refine ⟨rfl, ?_⟩
        rintro _ ⟨⟩
        obtain ⟨length, sizes⟩ := listed descs rfl
        have row := List.mem_of_find?_eq_some ((known d).mp rfl).2.2
        exact ⟨congrArg (· + 1) length, List.forall_mem_cons.mpr ⟨(sound.sizes _).attrLen row, sizes⟩⟩

theorem quJoin_run {joinMethod : JoinType} {attr1 attr2 : AttrInfo} {op : Operator}
    (sound : Sound st db) (nonempty : projNames ≠ []) (few : projNames.length ≤ pageSize)
    (terminated : ∀ proj ∈ projNames, 0 ∉ proj.relName) (terminated1 : 0 ∉ attr1.relName)
    (terminated2 : 0 ∉ attr2.relName)
    (returned : Flat.run (quJoin joinMethod fuel result projNames attr1 op attr2) st =
      some (status, st')) :
    Rewritten result st st' := by
  rw [quJoin] at returned
  split at returned
  next =>
    simp only [quNLJoinBy, monadLift_self] at returned
    split at returned
    · cases returned
      exact .nothing
    obtain ⟨looked, st, lookups, rest⟩ := run_bind_inv _ _ returned
    obtain ⟨rfl, found⟩ := lookupAttrs_run sound terminated lookups
    cases looked with
    | error =>
      cases rest
      exact .nothing
    | ok descs =>
    obtain ⟨found1, st, looked1, rest1⟩ := run_bind_inv _ _ rest
    obtain ⟨rfl, -⟩ := AttrCatalog.getInfo_run sound.real.catalogs terminated1 looked1
    cases found1 with
    | error =>
      cases rest1
      exact .nothing
    | ok attrDesc1 =>
    obtain ⟨found2, st, looked2, rest2⟩ := run_bind_inv _ _ rest1
    obtain ⟨rfl, -⟩ := AttrCatalog.getInfo_run sound.real.catalogs terminated2 looked2
    cases found2 with
    | error =>
      cases rest2
      exact .nothing
    | ok attrDesc2 =>
    obtain ⟨length, sizes⟩ := found descs rfl
    refine joinScan_rewrites sound (fun descs' same => ?_) rest2
    obtain rfl : descs = descs' := List.map_injective_iff.mpr (Option.some_injective _) same
    obtain ⟨whole, low⟩ := int_total sizes (length ▸ few)
    exact ⟨whole, whole.symm ▸ low fun empty =>
      nonempty (List.length_eq_zero_iff.mp (by rw [← length, empty]; rfl))⟩
  next =>
    rw [quEmptyJoin] at returned
    split at returned <;> cases returned <;> exact .nothing

end calls

end Minirel
