import Minirel.Catalog.Refinement

/-! The catalogs `dbcreate` builds list themselves and nothing else. -/
namespace Minirel

variable {st st' : Flat}

def Database.initial (st : Flat) : Database where
  rel name := if name = relCatName then some 2 else if name = attrCatName then some 5 else none
  rows name := if name = relCatName then relCatAttrs else if name = attrCatName then attrCatAttrs
    else []
  present name := (st.files name).isSome
  openCnt := st.openCnt
  creatable := st.creatable
  described relation none := by
    split at none
    · cases none
    · rename_i apart
      split at none
      · cases none
      · rename_i apart'
        rw [if_neg apart, if_neg apart']
  catalogs := by decide

/-- While the catalogs are filled, they hold these descriptors in this order. -/
structure Loading (st : Flat) (rels : List RelDesc) (attrs : List AttrDesc) : Prop where
  rels : ∃ rows, TableAt st relCatName RelDesc.bytes rows [] ∧ rows.map Prod.snd = rels
  attrs : ∃ rows, TableAt st attrCatName AttrDesc.bytes rows [] ∧ rows.map Prod.snd = attrs

section loading
variable {rels : List RelDesc} {descs : List AttrDesc} {α : Type} {enc : α → List UInt8}
    {file : Name}

theorem TableAt.congr {front back : List (RID × α)} (table : TableAt st file enc front back)
    (same : st'.files file = st.files file) : TableAt st' file enc front back := by
  obtain ⟨f, hdr, chain, there, rest⟩ := table
  exact ⟨f, hdr, chain, same.trans there, rest⟩

theorem addRecord_last {rows : List (RID × α)} {a : α} (table : TableAt st file enc rows [])
    (named : file ≠ []) (nonempty : 0 < (enc a).length) (small : (enc a).length ≤ 1000) :
    ∃ rid g, Flat.run (addRecord file (enc a)) st = some (.ok, st.put file g) ∧
      TableAt (st.put file g) file enc (rows ++ [(rid, a)]) [] := by
  obtain ⟨rid, g, mid, rest, run, split, table'⟩ := addRecord_spec (a := a) table named nonempty small
  obtain ⟨rfl, rfl⟩ := List.append_eq_nil_iff.mp split.symm
  exact ⟨rid, g, run, by simpa using table'⟩

theorem Loading.addRel {d : RelDesc} (loading : Loading st rels descs) (valid : d.Valid) :
    ∃ g, Flat.run (RelCatalog.addInfo d) st = some (.ok, st.put relCatName g) ∧
      Loading (st.put relCatName g) (rels ++ [d]) descs := by
  obtain ⟨⟨rows, table, rfl⟩, rows', table', rfl⟩ := loading
  have size : d.bytes.length = 36 := valid.bytes_length
  obtain ⟨rid, g, run, added⟩ := addRecord_last (a := d) table relCatName_named (by omega) (by omega)
  exact ⟨g, run, ⟨_, added, by simp⟩, rows',
    table'.congr (Flat.files_put_of_ne _ catNames_ne.symm), rfl⟩

theorem Loading.addAttr {d : AttrDesc} (loading : Loading st rels descs) (valid : d.Valid) :
    ∃ g, Flat.run (AttrCatalog.addInfo d) st = some (.ok, st.put attrCatName g) ∧
      Loading (st.put attrCatName g) rels (descs ++ [d]) := by
  obtain ⟨⟨rows, table, rfl⟩, rows', table', rfl⟩ := loading
  have size : d.bytes.length = 76 := valid.bytes_length
  obtain ⟨rid, g, run, added⟩ := addRecord_last (a := d) table' attrCatName_named (by omega) (by omega)
  exact ⟨g, run, ⟨rows, table.congr (Flat.files_put_of_ne _ catNames_ne), rfl⟩, _, added, by simp⟩

theorem calls_cons {c : Prog Status} (rest : List (Prog Status))
    (run : Flat.run c st = some (.ok, st')) :
    Flat.run (calls (c :: rest)) st = Flat.run (calls rest) st' := by
  rw [calls, Flat.run, Program.run_bind_of _ _ run]
  rfl

structure BesideCatalogs (st st' : Flat) : Prop where
  files : ∀ name, UserName name → st'.files name = st.files name
  openCnt : st'.openCnt = st.openCnt
  creatable : st'.creatable = st.creatable

theorem BesideCatalogs.trans {st'' : Flat} (first : BesideCatalogs st st')
    (second : BesideCatalogs st' st'') :
    BesideCatalogs st st'' :=
  ⟨fun name user => (second.files name user).trans (first.files name user),
    second.openCnt.trans first.openCnt, second.creatable.trans first.creatable⟩

theorem BesideCatalogs.put_relCat (st : Flat) (g : FlatFile) :
    BesideCatalogs st (st.put relCatName g) :=
  ⟨fun _ user => Flat.files_put_of_ne _ user.1, rfl, rfl⟩

theorem BesideCatalogs.put_attrCat (st : Flat) (g : FlatFile) :
    BesideCatalogs st (st.put attrCatName g) :=
  ⟨fun _ user => Flat.files_put_of_ne _ user.2, rfl, rfl⟩

theorem Loading.addAttrs {ds : List AttrDesc} (loading : Loading st rels descs)
    (valid : ∀ d ∈ ds, d.Valid) (rest : List (Prog Status)) :
    ∃ st', Flat.run (calls (ds.map AttrCatalog.addInfo ++ rest)) st = Flat.run (calls rest) st' ∧
      Loading st' rels (descs ++ ds) ∧ BesideCatalogs st st' := by
  induction ds generalizing st descs with
  | nil => exact ⟨st, rfl, by simpa using loading, fun _ _ => rfl, rfl, rfl⟩
  | cons d ds ih =>
    rw [List.forall_mem_cons] at valid
    obtain ⟨g, run, added⟩ := loading.addAttr valid.1
    obtain ⟨st', run', added', beside⟩ := ih added valid.2
    refine ⟨st', (calls_cons _ run).trans run', by simpa using added', ?_⟩
    exact (BesideCatalogs.put_attrCat st g).trans beside

instance (n : Name) : Decidable (CName n) :=
  decidable_of_iff (0 ∉ n ∧ n.length < maxName) ⟨fun h => ⟨h.1, h.2⟩, fun h => ⟨h.terminated, h.fits⟩⟩

theorem relCat_valid : ∀ d ∈ [RelDesc.mk relCatName 2, ⟨attrCatName, 5⟩], d.Valid := by
  simp only [List.forall_mem_cons, List.not_mem_nil, false_implies, implies_true, and_true]
  exact ⟨⟨by decide, by decide⟩, by decide, by decide⟩

theorem attrCat_valid : ∀ d ∈ relCatAttrs ++ attrCatAttrs, d.Valid := by
  simp only [relCatAttrs, attrCatAttrs, List.cons_append, List.nil_append, List.forall_mem_cons,
    List.not_mem_nil, false_implies, implies_true, and_true]
  refine ⟨?_, ?_, ?_, ?_, ?_, ?_, ?_⟩ <;> exact ⟨by decide, by decide, by decide, by decide, by decide⟩

theorem Loading.filled (loading : Loading st [] []) :
    ∃ st', Flat.run (calls
      ([RelCatalog.addInfo ⟨relCatName, 2⟩] ++ relCatAttrs.map AttrCatalog.addInfo ++
        [RelCatalog.addInfo ⟨attrCatName, 5⟩] ++ attrCatAttrs.map AttrCatalog.addInfo)) st =
          some (.ok, st') ∧
      Loading st' [⟨relCatName, 2⟩, ⟨attrCatName, 5⟩] (relCatAttrs ++ attrCatAttrs) ∧
        BesideCatalogs st st' := by
  have relValid := relCat_valid
  have attrValid := attrCat_valid
  simp only [List.forall_mem_cons, List.forall_mem_append] at relValid attrValid
  obtain ⟨f, run₁, loading₁⟩ := loading.addRel relValid.1
  obtain ⟨st₂, run₂, loading₂, beside₂⟩ := loading₁.addAttrs attrValid.1
    (RelCatalog.addInfo ⟨attrCatName, 5⟩ :: attrCatAttrs.map AttrCatalog.addInfo)
  obtain ⟨g, run₃, loading₃⟩ := loading₂.addRel relValid.2.1
  obtain ⟨st₄, run₄, loading₄, beside₄⟩ := loading₃.addAttrs attrValid.2 []
  refine ⟨st₄, ?_, loading₄, (BesideCatalogs.put_relCat st f).trans
    (beside₂.trans ((BesideCatalogs.put_relCat st₂ g).trans beside₄))⟩
  rw [List.append_nil] at run₄
  simp only [List.append_assoc, List.cons_append, List.nil_append]
  rw [calls_cons _ run₁, run₂, calls_cons _ run₃, run₄]
  rfl

theorem map_ofRelation (relation : Name) (rows : List (RID × AttrDesc)) :
    (ofRelation relation rows).map Prod.snd = (rows.map Prod.snd).filter fun d =>
      d.relName = relation := by
  rw [List.filter_map]
  rfl

/-- The full catalogs represent the initial database. -/
theorem Loading.represents
    (loading : Loading st [⟨relCatName, 2⟩, ⟨attrCatName, 5⟩] (relCatAttrs ++ attrCatAttrs)) :
    Represents st (Database.initial st).toCatalog := by
  obtain ⟨⟨rows, table, rels⟩, rows', table', attrs⟩ := loading
  refine ⟨⟨rows ++ [], table.table, ?_, ?_⟩, rows' ++ [], table'.table, ?_, ?_⟩
  · intro r member
    rw [List.append_nil] at member
    exact relCat_valid r.2 (rels ▸ List.mem_map_of_mem member)
  · have pairs : rows.map (fun r => (r.2.relName, r.2.attrCnt)) =
        [(relCatName, 2), (attrCatName, 5)] := by
      have named := congrArg (List.map fun d : RelDesc => (d.relName, d.attrCnt)) rels
      rwa [List.map_map] at named
    rw [List.append_nil, pairs]
    refine ⟨by decide, fun name n => ?_⟩
    simp only [Database.initial, List.mem_cons, Prod.mk.injEq, List.not_mem_nil, or_false]
    split
    next same =>
      simp only [same, catNames_ne, true_and, false_and, or_false, Option.some.injEq]
      exact eq_comm
    next apart => split <;> simp_all [eq_comm]
  · intro r member
    rw [List.append_nil] at member
    exact attrCat_valid r.2 (attrs ▸ List.mem_map_of_mem member)
  · intro relation
    rw [List.append_nil, map_ofRelation, attrs]
    simp only [Database.initial]
    split
    next same =>
      subst same
      decide
    next apart =>
      split
      next same =>
        subst same
        decide
      next apart' =>
        simp [relCatAttrs, attrCatAttrs, Ne.symm apart, Ne.symm apart']

end loading

theorem openCnt_reclosed
    (same : st.openCnt = ((st'.opened relCatName).opened attrCatName).openCnt) :
    ((st.closed relCatName).closed attrCatName).openCnt = st'.openCnt := by
  have opened : st.openCnt relCatName = st'.openCnt relCatName + 1 := by
    simp [same, Flat.opened, catNames_ne]
  have opened' : st.openCnt attrCatName = st'.openCnt attrCatName + 1 := by
    simp [same, Flat.opened, catNames_ne.symm]
  funext name
  simp only [Flat.closed, Function.update_apply, catNames_ne.symm, if_false, opened, opened']
  split
  next is => rw [is, Nat.add_sub_cancel]
  next apart =>
    split
    next is => rw [is, Nat.add_sub_cancel]
    next apart' => simp [same, Flat.opened, apart, apart']

structure Vacant (st : Flat) : Prop where
  absent : st.files relCatName = none ∧ st.files attrCatName = none
  unopened : st.openCnt relCatName = 0 ∧ st.openCnt attrCatName = 0
  creatable : st.creatable relCatName = true ∧ st.creatable attrCatName = true

/-- The catalogs of a new database describe themselves. -/
theorem dbcreate_spec (vacant : Vacant st) :
    ∃ st', Flat.run dbcreate st = some (.ok, st') ∧ Realizes st' (Database.initial st') ∧
      BesideCatalogs st st' := by
  obtain ⟨⟨absent, absent'⟩, ⟨unopened, unopened'⟩, creatable, creatable'⟩ := vacant
  obtain ⟨st₁, eq₁⟩ : ∃ st₁, st₁ = st.put relCatName (newFile st) := ⟨_, rfl⟩
  obtain ⟨st₂, eq₂⟩ : ∃ st₂, st₂ = st₁.put attrCatName (newFile st₁) := ⟨_, rfl⟩
  have create : Flat.run (createHeapFile relCatName) st = some (.ok, st₁) := by
    rw [eq₁]
    exact createHeapFile_spec relCatName_named absent unopened creatable
  have create' : Flat.run (createHeapFile attrCatName) st₁ = some (.ok, st₂) := by
    subst eq₁
    rw [eq₂]
    exact createHeapFile_spec attrCatName_named
      ((Flat.files_put_of_ne _ catNames_ne.symm).trans absent') unopened'
      creatable'
  have there : st₂.files relCatName = some (newFile st) := by
    rw [eq₂, Flat.files_put_of_ne _ catNames_ne, eq₁, Flat.files_put]
  have there' : (st₂.opened relCatName).files attrCatName = some (newFile st₁) := by
    rw [Flat.files_opened, eq₂, Flat.files_put]
  have beside : BesideCatalogs st st₂ := by
    rw [eq₂, eq₁]
    exact (BesideCatalogs.put_relCat ..).trans (BesideCatalogs.put_attrCat ..)
  obtain ⟨relCat, file, new⟩ : ∃ h : HeapFile, h.filePtr = relCatName ∧
      Flat.run (HeapFile.new relCatName) st₂ = some (.ok h, st₂.opened relCatName) :=
    ⟨_, rfl, HeapFile.new_spec (newFile_heap st) there relCatName_named⟩
  obtain ⟨attrCat, file', new'⟩ : ∃ h : HeapFile, h.filePtr = attrCatName ∧
      Flat.run (HeapFile.new attrCatName) (st₂.opened relCatName) =
        some (.ok h, (st₂.opened relCatName).opened attrCatName) :=
    ⟨_, rfl, HeapFile.new_spec (newFile_heap st₁) there' attrCatName_named⟩
  have loading : Loading ((st₂.opened relCatName).opened attrCatName) [] [] :=
    ⟨⟨[], (Table.congr (newFile_table st relCatName) (there.trans (Flat.files_put ..).symm)).at, rfl⟩,
      [], (Table.congr (newFile_table st₁ attrCatName) (there'.trans (Flat.files_put ..).symm)).at, rfl⟩
  obtain ⟨st₃, fill, loading', beside'⟩ := loading.filled
  have isOpen : st₃.openCnt relCatName ≠ 0 := by
    rw [beside'.openCnt]
    simp [Flat.opened, Function.update_apply, catNames_ne]
  have isOpen' : (st₃.closed relCatName).openCnt attrCatName ≠ 0 := by
    simp [Flat.closed, catNames_ne.symm, beside'.openCnt]
  have close := HeapFile.delete_spec file isOpen
  have close' := HeapFile.delete_spec file' isOpen'
  refine ⟨(st₃.closed relCatName).closed attrCatName, ?_,
    ⟨loading'.represents.congr rfl rfl, fun _ => rfl, rfl, rfl⟩, ?_⟩
  · rw [dbcreate, Flat.run, Program.run_bind_of _ _ create]
    simp only [ne_eq, not_true_eq_false, if_false]
    rw [Program.run_bind_of _ _ create']
    simp only [not_true_eq_false, if_false]
    rw [Program.run_bind_of _ _ new]
    simp only
    rw [Program.run_bind_of _ _ new']
    simp only
    rw [Program.run_bind_of _ _ fill]
    simp only [not_true_eq_false, if_false]
    rw [Program.run_bind_of _ _ close, Program.run_bind_of _ _ close']
    rfl
  · refine ⟨fun name user => ?_, ?_, ?_⟩
    · exact (beside'.files name user).trans (beside.files name user)
    · rw [openCnt_reclosed beside'.openCnt, beside.openCnt]
    · exact beside'.creatable.trans beside.creatable

/-- `dbcreate` fails where a catalog is there already. -/
theorem vacant_of_dbcreate (run : Flat.run dbcreate st = some (.ok, st')) : Vacant st := by
  obtain ⟨⟨status, st₁⟩, create, creation⟩ := createHeapFile_cases st relCatName
  rw [dbcreate, Flat.run, Program.run_bind_of _ _ create] at run
  cases creation with
  | nameless empty => exact absurd empty relCatName_named
  | known => cases run
  | refused => cases run
  | created _ absent unopened creatable =>
    obtain ⟨⟨status, st₂⟩, create', creation⟩ :=
      createHeapFile_cases (st.put relCatName (newFile st)) attrCatName
    simp only [ne_eq, not_true_eq_false, if_false] at run
    rw [Program.run_bind_of _ _ create'] at run
    cases creation with
    | nameless empty => exact absurd empty attrCatName_named
    | known => cases run
    | refused => cases run
    | created _ absent' unopened' creatable' =>
      rw [Flat.files_put_of_ne _ catNames_ne.symm] at absent'
      exact ⟨⟨absent, absent'⟩, ⟨unopened, unopened'⟩, creatable, creatable'⟩

theorem dbcreate_realizes (run : Flat.run dbcreate st = some (.ok, st')) :
    Realizes st' (Database.initial st') := by
  obtain ⟨st'', run', real, _⟩ := dbcreate_spec (vacant_of_dbcreate run)
  rw [run] at run'
  cases run'
  exact real

end Minirel
