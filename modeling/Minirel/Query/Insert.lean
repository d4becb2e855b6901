import Minirel.Catalog.Layout
import Minirel.Query.Select
import Minirel.Query.Source
import Minirel.Query.Text

/-! Insertion of tuples: where the values of a statement end up in the record,
which lists of attributes are accepted, and on what memory the record depends. -/
namespace Minirel
open ByteMemory Program Transition

/-! The copying loops. -/

section copy
variable {atof : Name → Nat} {memory : Memory} {attr : AttrDesc} {attrs : List AttrDesc}
    {list : List AttrInfo}
  {pointer : Option (Nat → UInt8)} {output : List UInt8} {totalLength : Int} {j : Nat}

@[simp] theorem fetch_length (see : Nat → UInt8) (length : Int) :
    (fetch see length).length = length.toNat := by
  simp [fetch]

theorem fetch_pointer (memory : Memory) (j : Nat) (value : List UInt8) (length : Int) :
    fetch (memory.pointer j value) length =
      value.take length.toNat ++ (List.range (length.toNat - value.length)).map
        (memory.behind j) := by
  apply List.ext_getElem
  · rw [fetch_length, List.length_append, List.length_take, List.length_map, List.length_range]
    omega
  · intro k low high
    rw [fetch_length] at low
    simp only [fetch, Memory.pointer, List.getElem_map, List.getElem_range]
    by_cases inside : k < value.length
    · rw [List.getElem_append_left (by rw [List.length_take]; omega), List.getElem_take,
        List.getD_eq_getElem _ _ inside]
    · rw [List.getElem_append_right (by rw [List.length_take]; omega),
        List.getD_eq_default _ _ (by omega),
        List.getElem_map, List.getElem_range, List.length_take, Nat.min_eq_right (by omega)]

theorem columnValue_string (type : attr.attrType = 0) {text : Name} :
    columnValue atof (datatypeOf attr.attrType) text = text ++ [0] := by
  rw [type]
  rfl

theorem columnValue_integer (type : attr.attrType = 1) {text : Name} :
    columnValue atof (datatypeOf attr.attrType) text = encode 4 (atoi text) := by
  rw [type]
  rfl

theorem columnValue_float (type : attr.attrType = 2) {text : Name} :
    columnValue atof (datatypeOf attr.attrType) text = encode 4 (atof text) := by
  rw [type]
  rfl

/-- What one entry puts into the column of its name. -/
def entryBytes (atof : Name → Nat) (memory : Memory) (attr : AttrDesc) (j : Nat)
    (given : AttrInfo) : List UInt8 :=
  fetch (memory.pointer j (columnValue atof (datatypeOf attr.attrType) (given.attrValue.getD [])))
    attr.attrLen

/-- What all entries of its name put into a column. -/
def columnBytes (atof : Name → Nat) (memory : Memory) (attr : AttrDesc) : Nat → List AttrInfo →
    List UInt8
  | _, [] => []
  | j, given :: list =>
    (if attr.attrName = given.attrName then entryBytes atof memory attr j given else []) ++
      columnBytes atof memory attr (j + 1) list

def Valued (list : List AttrInfo) : Prop := ∀ given ∈ list, ∃ text, given.attrValue = some text

instance (list : List AttrInfo) : Decidable (Valued list) :=
  decidable_of_iff (∀ given ∈ list, given.attrValue.isSome) (by simp [Valued, Option.isSome_iff_exists])

theorem columnBytes_length (atof : Name → Nat) (memory : Memory) (j : Nat) (list : List AttrInfo)
    (plain : attr.Plain) :
    ((columnBytes atof memory attr j list).length : Int) = attr.attrLen * mentions list attr := by
  induction list generalizing j with
  | nil => simp [columnBytes, mentions]
  | cons given list ih =>
    have size := plain.length
    rw [columnBytes, List.length_append, Nat.cast_add, ih]
    by_cases hit : attr.attrName = given.attrName
    · rw [if_pos hit, mentions_cons_hit hit, entryBytes, fetch_length, Nat.cast_add, Nat.cast_one,
        mul_add]
      omega
    · rw [if_neg hit, mentions_cons_miss hit]
      simp

theorem columnBytes_none (none : mentions list attr = 0) :
    columnBytes atof memory attr j list = [] := by
  induction list generalizing j with
  | nil => rfl
  | cons given list ih =>
    by_cases hit : attr.attrName = given.attrName
    · rw [mentions_cons_hit hit] at none
      cases none
    · rw [mentions_cons_miss hit] at none
      rw [columnBytes, if_neg hit, ih none]
      rfl

theorem columnBytes_single {given : AttrInfo} (once : mentions list attr = 1)
    (member : given ∈ list) (name : given.attrName = attr.attrName) (first : Nat) :
    ∃ j, ∀ atof memory, columnBytes atof memory attr first list =
      entryBytes atof memory attr j given := by
  induction list generalizing first with
  | nil => cases member
  | cons other list ih =>
    by_cases hit : attr.attrName = other.attrName
    · rw [mentions_cons_hit hit] at once
      have none : mentions list attr = 0 := Nat.succ.inj once
      have same : given = other := by
        refine (List.mem_cons.mp member).resolve_right fun later => ?_
        exact absurd none (Nat.pos_iff_ne_zero.mp
          (List.countP_pos_iff.mpr ⟨given, later, by simp [name]⟩))
      subst same
      refine ⟨first, fun atof memory => ?_⟩
      rw [columnBytes, if_pos hit, columnBytes_none none, List.append_nil]
    · rw [mentions_cons_miss hit] at once
      have later : given ∈ list := (List.mem_cons.mp member).resolve_left fun same =>
        hit (same ▸ name.symm)
      obtain ⟨j, same⟩ := ih once later (first + 1)
      refine ⟨j, fun atof memory => ?_⟩
      rw [columnBytes, if_neg hit, List.nil_append]
      exact same atof memory

theorem tempPtr_of_valued (plain : attr.Plain) {given : AttrInfo}
    (valued : ∃ text, given.attrValue = some text) :
    tempPtr atof memory attr j given pointer =
      some (memory.pointer j
        (columnValue atof (datatypeOf attr.attrType) (given.attrValue.getD []))) := by
  obtain ⟨text, value⟩ := valued
  simp [tempPtr, plain.type, value]

/-- The copies of a column stay in the buffer, or there is one that does not. -/
theorem copyColumn_output (atof : Name → Nat) (memory : Memory) (j : Nat)
    (pointer : Option (Nat → UInt8)) (plain : attr.Plain) (valued : Valued list)
    (room : output.length ≤ totalLength) :
    (copyColumn atof memory totalLength attr j list pointer output).map Prod.snd =
      if output.length + attr.attrLen * mentions list attr ≤ totalLength then
        some (output ++ columnBytes atof memory attr j list)
      else none := by
  induction list generalizing j pointer output with
  | nil => simp [mentions, room, copyColumn, columnBytes]
  | cons given list ih =>
    rw [Valued, List.forall_mem_cons] at valued
    by_cases hit : attr.attrName = given.attrName
    swap
    · rw [mentions_cons_miss hit, copyColumn, if_neg hit, columnBytes, if_neg hit, List.nil_append]
      exact ih j.succ pointer valued.2 room
    have size := plain.length
    have more : 0 ≤ attr.attrLen * (mentions list attr : Int) := mul_nonneg size (Int.natCast_nonneg _)
    have next : ((output ++ entryBytes atof memory attr j given).length : Int) = output.length +
        attr.attrLen := by
      rw [List.length_append, entryBytes, fetch_length]
      omega
    rw [mentions_cons_hit hit, copyColumn, if_pos hit, tempPtr_of_valued plain valued.1,
      columnBytes, if_pos hit,
      Nat.cast_add, Nat.cast_one, mul_add, mul_one, add_comm (attr.attrLen * _), ← add_assoc]
    simp only
    by_cases fits : output.length + attr.attrLen ≤ totalLength
    · have rest := ih (j + 1) (some (memory.pointer j
        (columnValue atof (datatypeOf attr.attrType) (given.attrValue.getD [])))) valued.2
          (next.trans_le fits)
      rw [next, List.append_assoc] at rest
      rw [if_pos (And.intro size fits)]
      exact rest
    · rw [if_neg fun both => fits (And.right both), if_neg (by omega)]
      rfl

def copiedLength (list : List AttrInfo) (attrs : List AttrDesc) : Int :=
  (attrs.map fun attr => attr.attrLen * (mentions list attr : Int)).sum

theorem copiedLength_nonneg (list : List AttrInfo) (plain : ∀ attr ∈ attrs, attr.Plain) :
    0 ≤ copiedLength list attrs := by
  apply List.sum_nonneg
  intro n member
  obtain ⟨attr, listed, rfl⟩ := List.mem_map.mp member
  exact mul_nonneg (plain attr listed).length (Int.natCast_nonneg _)

theorem copyColumns_eq (plain : ∀ attr ∈ attrs, attr.Plain) (valued : Valued list)
    (room : output.length ≤ totalLength) :
    copyColumns atof memory totalLength list attrs pointer output =
      if output.length + copiedLength list attrs ≤ totalLength then
        some (output ++ attrs.flatMap fun attr => columnBytes atof memory attr 0 list)
      else none := by
  induction attrs generalizing pointer output with
  | nil => simp [copyColumns, copiedLength, room]
  | cons attr attrs ih =>
    rw [List.forall_mem_cons] at plain
    have column := copyColumn_output atof memory 0 pointer plain.1 valued room
    have length := columnBytes_length atof memory 0 list plain.1
    have rest := copiedLength_nonneg list plain.2
    have sum : copiedLength list (attr :: attrs) = attr.attrLen * (mentions list attr : Int) +
        copiedLength list attrs :=
      rfl
    rw [copyColumns, sum]
    split at column
    next fits =>
      obtain ⟨⟨pointer', _⟩, copied, rfl⟩ := Option.map_eq_some_iff.mp column
      rw [copied]
      simp only
      rw [ih plain.2 (by rw [List.length_append]; omega), List.length_append, Nat.cast_add, length,
        add_assoc, List.append_assoc]
      rfl
    next full => rw [Option.map_eq_none_iff.mp column, if_neg (by omega)]

end copy

/-! The end of the call. -/

section insertTuple
variable {st after : Flat} {relation : Name} {records : List Entry} {bytes : List UInt8}
    {record : Record}

theorem run_insertTuple {h h' : HeapFile} {result : Except Status RID}
    (new : Flat.run (InsertFileScan.new relation) st = some (.ok h, st.opened relation))
    (insert : Flat.run (InsertFileScan.insertRecord h record) (st.opened relation) =
      some ((result, h'), after))
    (file : h'.filePtr = relation) (isOpen : after.openCnt relation ≠ 0) :
    Flat.run (insertTuple relation record) st = some ((match result with
      | .error status => status
      | .ok _ => .ok), after.closed relation) := by
  rw [insertTuple, Flat.run, run_bind_of _ _ new]
  simp only
  rw [run_bind_of _ _ insert]
  simp only
  rw [run_bind_of _ _ (InsertFileScan.delete_spec file isOpen)]
  cases result <;> rfl

theorem Table.insertTuple_ok (table : Table st relation id records) (named : relation ≠ [])
    (nonempty : 0 < bytes.length) (small : bytes.length ≤ 1000) :
    ∃ g records', Flat.run (insertTuple relation (.ofBytes bytes)) st =
      some (.ok, st.put relation g) ∧ Table (st.put relation g) relation id records' ∧
        Gained records records' [bytes] := by
  obtain ⟨h, new, inserter⟩ := table.openInserter named
  obtain ⟨rid, h', g, front, back, insert, rfl, inserter'⟩ := inserter.insert nonempty small
  have isOpen : ((st.opened relation).put relation g).openCnt relation ≠ 0 := by simp
  have run := run_insertTuple new insert inserter'.file isOpen
  rw [Flat.closed_put, Flat.closed_opened] at run
  refine ⟨g, _, run, inserter'.table.congr ?_, .one rid bytes⟩
  rw [Flat.files_put, Flat.files_put]

theorem Table.insertTuple_large (table : Table st relation id records) (named : relation ≠ [])
    (large : 1000 < record.length) :
    ∃ status st', Flat.run (insertTuple relation record) st = some (status, st') ∧ status ≠ .ok ∧
      Table st' relation id records := by
  obtain ⟨f, hdr, chain, there, heap, list⟩ := table
  obtain ⟨h, new, opened⟩ := InsertFileScan.new_spec heap there named
  obtain ⟨p, pre, rfl⟩ := heap.last_page
  by_cases page : record.length ≤ 1004
  · obtain ⟨h', g, insert, file, linked⟩ := InsertFileScan.insertRecord_noSpace record heap
      (show (st.opened relation).files relation = some f from there) opened large page
    obtain ⟨hdr', chain', heap', same⟩ := linked.heap heap
    have run := run_insertTuple new insert file (by simp)
    rw [Flat.closed_put, Flat.closed_opened] at run
    exact ⟨.noSpace, _, run, by decide, g, hdr', chain', Flat.files_put .., heap', same.trans list⟩
  · have insert : Flat.run (InsertFileScan.insertRecord h record) (st.opened relation) = _ :=
      InsertFileScan.insertRecord_invalid (.inr (by omega))
    have run := run_insertTuple new insert opened.file (by simp)
    rw [Flat.closed_opened] at run
    exact ⟨.invalidRecLen, _, run, by decide, f, hdr, _, there, heap, list⟩

theorem Table.insertTuple_empty (table : Table st relation id records) (named : relation ≠ [])
    (empty : record.length = 0) :
    ∃ st', Flat.run (insertTuple relation record) st = some (.ok, st') := by
  obtain ⟨f, hdr, chain, there, heap, list⟩ := table
  obtain ⟨h, new, opened⟩ := InsertFileScan.new_spec heap there named
  obtain ⟨p, pre, rfl⟩ := heap.last_page
  obtain ⟨rid, h', g, insert, file⟩ := InsertFileScan.insertRecord_empty record heap
    (show (st.opened relation).files relation = some f from there) opened empty
  exact ⟨_, run_insertTuple new insert file (by simp)⟩

end insertTuple

/-! A statement on a relation. -/

/-- A relation that some history of calls has created, in a state with the
catalogs of that history, and its records. -/
structure InsertSite where
  made : Recorded
  reached : Reachable Recorded.Created (Recorded.Step NamedAttrs) made
  relation : Name
  named : relation ≠ []
  terminated : 0 ∉ relation
  attrList : List AttrInfo
  given : made.history.given relation = some (attrList, .ok)
  declared : Declared attrList
  typed : ∀ attr ∈ attrList, attr.Typed
  st : Flat
  rels : st.files relCatName = made.storage.files relCatName
  attrs : st.files attrCatName = made.storage.files attrCatName
  records : List Entry
  table : Table st relation id records

/-- The list names each column once. -/
def Complete (columns : List AttrDesc) (list : List AttrInfo) : Prop :=
  (list.map AttrInfo.attrName).Perm (columns.map AttrDesc.attrName)

instance (columns : List AttrDesc) (list : List AttrInfo) : Decidable (Complete columns list) :=
  inferInstanceAs (Decidable (List.Perm _ _))

namespace InsertSite
variable (site : InsertSite) {d : AttrDesc} {atof : Name → Nat} {memory : Memory}
    {list : List AttrInfo}

def columns : List AttrDesc := describe site.relation 0 site.attrList

def width : Int := AttrDesc.total site.columns

theorem columns_ne_nil : site.columns ≠ [] := by
  intro empty
  have names := describe_names site.relation 0 site.attrList
  rw [← columns, empty] at names
  exact site.declared.nonempty (List.map_eq_nil_iff.mp names.symm)

theorem distinct : (site.columns.map AttrDesc.attrName).Nodup := by
  rw [columns, describe_names]
  exact site.declared.distinct

theorem width_lt : site.width < 2 ^ 31 := by
  rw [width, columns, describe_total _ _ site.declared.lengths site.declared.width]
  exact site.declared.width

theorem column (listed : d ∈ site.columns) : d.Typed :=
  describe_typed site.declared site.typed listed

theorem width_pos : 1 ≤ site.width := by
  obtain ⟨d, rest, split⟩ := List.exists_cons_of_ne_nil site.columns_ne_nil
  have first := (site.column (d := d) (by simp [split])).comparable.length
  have others : 0 ≤ (rest.map AttrDesc.attrLen).sum := by
    apply List.sum_nonneg
    intro n member
    obtain ⟨d', listed, rfl⟩ := List.mem_map.mp member
    exact (site.column (by simp [split, listed])).plain.length
  rw [width, split, AttrDesc.total, List.map_cons, List.sum_cons]
  omega

theorem catalog : ∃ cat n, Represents site.st cat ∧ cat.rows site.relation = site.columns ∧
    cat.rel site.relation = some n := by
  obtain ⟨db, real, kept⟩ :=
    Recorded.realizes (fun db history => ∀ name, Kept name (history.given name) (db.rows name))
    kept_initial (fun _ _ _ _ real kept _ => kept_call real kept) (fun _ _ _ kept => kept) site.reached
  have rows : db.rows site.relation = site.columns := by
    have kept := kept site.relation
    rw [site.given] at kept
    exact kept.rows_of_ok
  cases listed : db.rel site.relation with
  | none => exact absurd (rows.symm.trans (db.described _ listed)) site.columns_ne_nil
  | some n => exact ⟨db.toCatalog, n, real.catalogs.congr site.rels site.attrs, rows, listed⟩

theorem returns_iff {r : Status × Flat} :
    Returns Flat.handle (quInsert atof memory · site.relation list) site.st r ↔
    Flat.run (insertValues atof memory site.relation list site.columns) site.st = some r := by
  obtain ⟨cat, n, rep, rows, rel⟩ := site.catalog
  have info := RelCatalog.getInfo_spec rep site.terminated site.named
  have relInfo := AttrCatalog.getRelInfo_spec rep site.terminated site.named
  rw [rel] at info
  rw [rows, if_neg site.columns_ne_nil] at relInfo
  have tail : Returns Flat.handle (quInsert atof memory · site.relation list) site.st r ↔
      Returns Flat.handle (fun _ => insertValues atof memory site.relation list site.columns)
        site.st r :=
    (Returns.bind_iff info).trans (Returns.bind_iff relInfo)
  rw [tail]
  exact ⟨fun ⟨bound, run⟩ => run bound (Nat.le_refl _), .of_run⟩

def taken (list : List AttrInfo) : List AttrDesc := site.columns.take list.length

/-- Every descriptor is one of the relation, and every copy stays in the buffer. -/
def Bounded (list : List AttrInfo) : Prop :=
  list.length ≤ site.columns.length ∧
    copiedLength list (site.taken list) ≤ AttrDesc.total (site.taken list)

instance (list : List AttrInfo) : Decidable (site.Bounded list) :=
  inferInstanceAs (Decidable (_ ∧ _))

def record (atof : Name → Nat) (memory : Memory) (list : List AttrInfo) : List UInt8 :=
  memory.rest (AttrDesc.total (site.taken list))
    ((site.taken list).flatMap fun d => columnBytes atof memory d 0 list)

theorem copied_length (atof : Name → Nat) (memory : Memory) (list : List AttrInfo)
    {descs : List AttrDesc} (plain : ∀ d ∈ descs, d.Plain) :
    ((descs.flatMap fun d => columnBytes atof memory d 0 list).length : Int) =
      copiedLength list descs := by
  induction descs with
  | nil => rfl
  | cons d descs ih =>
    rw [List.forall_mem_cons] at plain
    rw [List.flatMap_cons, List.length_append, Nat.cast_add, ih plain.2,
      columnBytes_length atof memory 0 list plain.1]
    rfl

theorem taken_total (list : List AttrInfo) :
    0 ≤ AttrDesc.total (site.taken list) ∧ AttrDesc.total (site.taken list) ≤ site.width := by
  have nonneg : ∀ n ∈ site.columns.map AttrDesc.attrLen, 0 ≤ n := by
    intro n member
    obtain ⟨d, listed, rfl⟩ := List.mem_map.mp member
    exact (site.column listed).plain.length
  have part := (List.take_prefix list.length site.columns).map AttrDesc.attrLen
  exact ⟨List.sum_nonneg fun n member => nonneg n (part.subset member), part.sublist.sum_le_sum nonneg⟩

theorem taken_plain (list : List AttrInfo) : ∀ d ∈ site.taken list, d.Plain :=
  fun _ listed => (site.column (List.mem_of_mem_take listed)).plain

theorem record_length (atof : Name → Nat) (memory : Memory) (bounded : site.Bounded list) :
    ((site.record atof memory list).length : Int) = AttrDesc.total (site.taken list) := by
  have copied := copied_length atof memory list (site.taken_plain list)
  have low := (site.taken_total list).1
  have room := bounded.2
  rw [record, Memory.rest, List.length_append, List.length_map, List.length_range]
  omega

theorem insertValues_eq (atof : Name → Nat) (memory : Memory) (valued : Valued list) :
    insertValues atof memory site.relation list site.columns =
      if site.Bounded list then insertTuple site.relation (.ofBytes (site.record atof memory list))
        else .halt := by
  obtain ⟨low, high⟩ := site.taken_total list
  have small := site.width_lt
  have exact : int ((site.columns.take list.length).map AttrDesc.attrLen).sum =
      AttrDesc.total (site.taken list) :=
    int_of_fits (show _ ≤ AttrDesc.total (site.taken list) by omega)
      (show AttrDesc.total (site.taken list) < _ by omega)
  have copied : copyColumns atof memory (AttrDesc.total (site.taken list)) list
      (site.columns.take list.length) none [] = _ :=
    copyColumns_eq (site.taken_plain list) valued low
  simp only [insertValues, exact, copied, List.nil_append, List.length_nil, Nat.cast_zero, zero_add]
  by_cases short : list.length ≤ site.columns.length
  swap
  · rw [if_pos (by omega), if_neg fun bounded : site.Bounded list => short bounded.1]
  rw [if_neg (Nat.not_lt.mpr short)]
  by_cases room : copiedLength list (site.taken list) ≤ AttrDesc.total (site.taken list)
  · have bounded : site.Bounded list := ⟨short, room⟩
    rw [if_pos bounded, Record.ofBytes, site.record_length atof memory bounded, ← taken, if_pos room]
    rfl
  · rw [if_neg fun bounded : site.Bounded list => room bounded.2, ← taken, if_neg room]

/-- The statement succeeds, and a record of these bytes is all that it adds. -/
def Stored (atof : Name → Nat) (memory : Memory) (list : List AttrInfo) (bytes : List UInt8) :
    Prop :=
  ∃ st' records', Returns Flat.handle (quInsert atof memory · site.relation list) site.st (.ok, st') ∧
    Table st' site.relation id records' ∧ Gained site.records records' [bytes] ∧
    ∀ other ≠ site.relation, st'.files other = site.st.files other

section outcome
variable {site} {bytes bytes' : List UInt8} {r : Status × Flat}

/-- A copy behind the end of the buffer has no result. -/
theorem bounded_of_returns (valued : Valued list)
    (returns : Returns Flat.handle (quInsert atof memory · site.relation list) site.st r) :
    site.Bounded list := by
  by_contra unbounded
  rw [returns_iff, insertValues_eq site atof memory valued, if_neg unbounded] at returns
  cases returns

theorem returns_of_run (valued : Valued list) (bounded : site.Bounded list)
    (run : Flat.run (insertTuple site.relation (.ofBytes (site.record atof memory list))) site.st =
      some r) :
    Returns Flat.handle (quInsert atof memory · site.relation list) site.st r := by
  rw [returns_iff, insertValues_eq site atof memory valued, if_pos bounded]
  exact run

theorem stored_record (atof : Name → Nat) (memory : Memory) (valued : Valued list)
    (bounded : site.Bounded list) (low : 1 ≤ AttrDesc.total (site.taken list))
    (high : AttrDesc.total (site.taken list) ≤ 1000) :
    site.Stored atof memory list (site.record atof memory list) := by
  have length := site.record_length atof memory bounded
  obtain ⟨bytes, same⟩ : ∃ bytes, bytes = site.record atof memory list := ⟨_, rfl⟩
  rw [← same] at length ⊢
  obtain ⟨g, records', run, table, gained⟩ :=
    site.table.insertTuple_ok site.named (show 0 < bytes.length by omega) (by omega)
  rw [same] at run
  exact ⟨_, records', returns_of_run valued bounded run, table, gained, fun other apart =>
    Flat.files_put_of_ne g apart⟩

theorem refused (atof : Name → Nat) (memory : Memory) (valued : Valued list)
    (bounded : site.Bounded list) (large : 1000 < AttrDesc.total (site.taken list)) :
    ∃ status st', Returns Flat.handle (quInsert atof memory · site.relation list) site.st
      (status, st') ∧ status ≠ .ok ∧ Table st' site.relation id site.records := by
  have length := site.record_length atof memory bounded
  have long : 1000 < (Record.ofBytes (site.record atof memory list)).length :=
    large.trans_eq length.symm
  obtain ⟨status, st', run, failed, table⟩ := site.table.insertTuple_large site.named long
  exact ⟨status, st', returns_of_run valued bounded run, failed, table⟩

theorem accepted_empty (atof : Name → Nat) (memory : Memory) (valued : Valued list)
    (bounded : site.Bounded list) (empty : AttrDesc.total (site.taken list) = 0) :
    ∃ st', Returns Flat.handle (quInsert atof memory · site.relation list) site.st (.ok, st') := by
  have length := site.record_length atof memory bounded
  have nothing : (Record.ofBytes (site.record atof memory list)).length = 0 := length.trans empty
  obtain ⟨st', run⟩ := site.table.insertTuple_empty site.named nothing
  exact ⟨st', returns_of_run valued bounded run⟩

theorem stored_unique (first : site.Stored atof memory list bytes)
    (second : site.Stored atof memory list bytes') :
    bytes = bytes' := by
  obtain ⟨st₁, records₁, returns₁, table₁, gained₁, _⟩ := first
  obtain ⟨st₂, records₂, returns₂, table₂, gained₂, _⟩ := second
  cases returns₁.unique returns₂
  cases table₁.unique table₂
  exact gained₁.single_unique gained₂

end outcome

/-! Lists that name each column once. -/

section complete
variable {site} (complete : Complete site.columns list)
include complete

theorem complete_taken : site.taken list = site.columns := by
  have length := complete.length_eq
  rw [List.length_map, List.length_map] at length
  rw [taken, length, List.take_length]

theorem complete_mentions (listed : d ∈ site.columns) : mentions list d = 1 := by
  have count : mentions list d = (list.map AttrInfo.attrName).count d.attrName := by
    rw [mentions, List.count, List.countP_map]
    exact List.countP_congr fun given _ => by
      rw [Function.comp_apply, beq_iff_eq, decide_eq_true_iff, eq_comm]
  rw [count, complete.count_eq]
  exact List.count_eq_one_of_mem site.distinct (List.mem_map_of_mem listed)

theorem complete_sized (atof : Name → Nat) (memory : Memory) :
    ∀ d ∈ site.columns, ((columnBytes atof memory d 0 list).length : Int) = d.attrLen := by
  intro d listed
  rw [columnBytes_length atof memory 0 list (site.column listed).plain,
    complete_mentions complete listed]
  simp

theorem complete_copied : copiedLength list site.columns = site.width := by
  have sum : ∀ d ∈ site.columns, d.attrLen * (mentions list d : Int) = d.attrLen := fun d listed => by
    rw [complete_mentions complete listed]
    simp
  rw [copiedLength, List.map_congr_left sum]
  rfl

theorem complete_bounded : site.Bounded list := by
  constructor
  · have length := complete.length_eq
    rw [List.length_map, List.length_map] at length
    exact length.le
  · rw [complete_taken complete, complete_copied complete]
    exact le_rfl

theorem complete_record (atof : Name → Nat) (memory : Memory) :
    site.record atof memory list = site.columns.flatMap fun d =>
      columnBytes atof memory d 0 list := by
  have length := AttrDesc.flatMap_length (complete_sized complete atof memory)
  rw [record, complete_taken complete, Memory.rest, ← length, Int.toNat_natCast, Nat.sub_self]
  simp

theorem field_record (listed : d ∈ site.columns) :
    d.field (site.record atof memory list) = columnBytes atof memory d 0 list := by
  rw [complete_record complete]
  exact describe_field_flatMap site.declared (complete_sized complete atof memory) d listed

theorem field_record_entry (listed : d ∈ site.columns) {given : AttrInfo} (member : given ∈ list)
    (name : given.attrName = d.attrName) : ∃ j, ∀ atof memory,
      d.field (site.record atof memory list) = entryBytes atof memory d j given := by
  obtain ⟨j, same⟩ := columnBytes_single (complete_mentions complete listed) member name 0
  exact ⟨j, fun atof memory => (field_record complete listed).trans (same atof memory)⟩

end complete

/-- The record has the width of the relation, and holds at the offset of each
column the value of the entry of its name. -/
structure Holds (atof : Name → Nat) (list : List AttrInfo) (bytes : List UInt8) : Prop where
  width : (bytes.length : Int) = site.width
  integer : ∀ d ∈ site.columns, d.attrType = 1 → ∀ given ∈ list, given.attrName = d.attrName →
    ∀ v : Int, -2 ^ 31 ≤ v → v < 2 ^ 31 → given.attrValue = some (formatInt v) →
      d.field bytes = encode 4 v
  float : ∀ d ∈ site.columns, d.attrType = 2 → ∀ given ∈ list, given.attrName = d.attrName →
    ∀ text, given.attrValue = some text → d.field bytes = encode 4 (atof text)
  string : ∀ d ∈ site.columns, d.attrType = 0 → ∀ given ∈ list, given.attrName = d.attrName →
    ∀ text, given.attrValue = some text →
      (d.field bytes).take (min d.attrLen.toNat (text.length + 1)) =
        (text ++ [0]).take (min d.attrLen.toNat (text.length + 1))

/-- A complete statement stores the record, if it fits on a page. -/
theorem stored_complete {site : InsertSite} (atof : Name → Nat) (memory : Memory)
    (complete : Complete site.columns list)
    (valued : Valued list) (fits : site.width ≤ 1000) :
    site.Stored atof memory list (site.record atof memory list) := by
  apply stored_record atof memory valued (complete_bounded complete)
  · rw [complete_taken complete]
    exact site.width_pos
  · rw [complete_taken complete]
    exact fits

/-- Some history creates the relation; its file is empty. -/
theorem exists_of_source (source : Source) (user : UserName source.relation)
    (fits : (source.attrList.map AttrInfo.attrLen).sum ≤ pageSize) : ∃ site : InsertSite,
    site.relation = source.relation ∧ site.attrList = source.attrList ∧ site.records = [] := by
  obtain ⟨relation, attrList, name, named, declared, columns, typed⟩ := source
  have low := sum_lengths_nonneg declared.lengths
  simp only [pageSize] at fits
  have count : (attrList.length : Int) ≤ (attrList.map AttrInfo.attrLen).sum := by
    simpa using List.card_nsmul_le_sum (attrList.map AttrInfo.attrLen) 1
      (by simpa using declared.lengths)
  have width : RelCatalog.tupleWidth attrList ≤ pageSize := by
    rw [RelCatalog.tupleWidth, Int.emod_eq_of_lt low (by omega)]
    exact fits
  obtain ⟨st, reached⟩ := Recorded.exists_createRel relation attrList user
    ⟨name.terminated, fun attr member => (declared.names attr member).terminated, by omega⟩
    (fun st _ _ _ _ => show NamedAttrs st (.createRel relation attrList) from columns)
    (fun st => ⟨named, declared.nonempty, name.fits, by simp [Database.initial, user.1, user.2],
      declared.distinct, width⟩)
    (fun attr member => (declared.names attr member).fits)
  refine ⟨⟨_, reached, relation, named, name.terminated, attrList, given_createRel (by decide),
    declared, typed,
    st.put relation (newFile st), ?_, ?_, [], newFile_table st relation⟩, rfl, rfl, rfl⟩
  · exact Flat.files_put_of_ne _ user.1.symm
  · exact Flat.files_put_of_ne _ user.2.symm

/-- A relation with an integer and a string. -/
def numbered : Source where
  relation := chars "r"
  attrList := [⟨chars "r", chars "a", 1, 4, none⟩, ⟨chars "r", chars "b", 0, 8, none⟩]
  name := Source.tableR.name
  named := Source.tableR.named
  declared := by decide
  columns := by decide
  typed := by decide

theorem exists_numbered : ∃ site : InsertSite, site.columns = numbered.attrs ∧
    site.records = [] := by
  obtain ⟨site, relation, attrList, records⟩ := exists_of_source numbered (by decide) (by decide)
  refine ⟨site, ?_, records⟩
  rw [columns, relation, attrList]
  rfl

def constant (c : UInt8) : Memory := ⟨fun _ _ => c, fun _ => c⟩

def entry (name : String) (text : Name) : AttrInfo := ⟨chars "r", chars name, 0, -1, some text⟩

/-- The bytes of a column that a value determines. -/
def Agree (atof : Name → Nat) (list : List AttrInfo) (bytes bytes' : List UInt8) : Prop :=
  ∀ d ∈ site.columns, ∀ given ∈ list, given.attrName = d.attrName →
    ∀ text, given.attrValue = some text →
    let known := min d.attrLen.toNat (columnValue atof (datatypeOf d.attrType) text).length
    (d.field bytes).take known = (d.field bytes').take known

section values
variable {site} {given : AttrInfo} {text : Name}

/-- The value, as far as the column goes, and what lies behind it. -/
theorem field_record_value (complete : Complete site.columns list) (listed : d ∈ site.columns)
    (member : given ∈ list) (name : given.attrName = d.attrName)
    (value : given.attrValue = some text) : ∃ j, ∀ atof memory,
      d.field (site.record atof memory list) = (columnValue atof (datatypeOf d.attrType) text).take
        d.attrLen.toNat ++ (List.range
          (d.attrLen.toNat - (columnValue atof (datatypeOf d.attrType) text).length)).map
            (memory.behind j) := by
  obtain ⟨j, same⟩ := field_record_entry complete listed member name
  refine ⟨j, fun atof memory => ?_⟩
  rw [same atof memory, entryBytes, value, Option.getD_some, fetch_pointer]

theorem take_field_record (atof : Name → Nat) (memory : Memory)
    (complete : Complete site.columns list) (listed : d ∈ site.columns) (member : given ∈ list)
    (name : given.attrName = d.attrName) (value : given.attrValue = some text) :
    (d.field (site.record atof memory list)).take
        (min d.attrLen.toNat (columnValue atof (datatypeOf d.attrType) text).length) =
      (columnValue atof (datatypeOf d.attrType) text).take d.attrLen.toNat := by
  obtain ⟨j, same⟩ := field_record_value complete listed member name value
  rw [same atof memory]
  exact List.take_left' (List.length_take ..)

/-- A number fills its column. -/
theorem field_record_number (complete : Complete site.columns list) (listed : d ∈ site.columns)
    (member : given ∈ list) (name : given.attrName = d.attrName)
    (value : given.attrValue = some text) (four : d.attrLen = 4) {v : Int}
    (number : columnValue atof (datatypeOf d.attrType) text = encode 4 v) :
    d.field (site.record atof memory list) = encode 4 v := by
  obtain ⟨j, same⟩ := field_record_value complete listed member name value
  rw [same atof memory, number, four, encode_length]
  simp

theorem holds_record (atof : Name → Nat) (complete : Complete site.columns list) (memory : Memory) :
    site.Holds atof list (site.record atof memory list) := by
  have four {d : AttrDesc} (listed : d ∈ site.columns) (number : d.attrType = 1 ∨ d.attrType = 2) :
      d.attrLen = 4 := by
    rcases (site.column listed).kind with zero | ⟨_, four⟩
    · omega
    · exact four
  constructor
  · rw [site.record_length atof memory (complete_bounded complete), complete_taken complete]
    rfl
  · intro d listed type given member name v low high value
    apply field_record_number complete listed member name value (four listed (.inl type))
    rw [columnValue_integer type, atoi_formatInt low high]
  · intro d listed type given member name text value
    exact field_record_number complete listed member name value (four listed (.inr type))
      (columnValue_float type)
  · intro d listed type given member name text value
    have taken := take_field_record atof memory complete listed member name value
    rw [columnValue_string type, List.length_append, List.length_singleton] at taken
    rw [taken, List.take_eq_take_iff, List.length_append, List.length_singleton]
    omega

/-- A statement that names each column once adds one record, which holds the
values at the offsets of their columns, whatever the order of the list. -/
theorem stores_values (site : InsertSite) (fits : site.width ≤ 1000) (atof : Name → Nat)
    (memory : Memory) (complete : Complete site.columns list) (valued : Valued list) :
    ∃ bytes, site.Stored atof memory list bytes ∧ site.Holds atof list bytes ∧
      ∀ list' memory', list'.Perm list →
        ∃ bytes', site.Stored atof memory' list' bytes' ∧ site.Agree atof list bytes bytes' := by
  refine ⟨_, stored_complete atof memory complete valued fits, holds_record atof complete memory, ?_⟩
  intro list' memory' perm
  have complete' : Complete site.columns list' := (perm.map _).trans complete
  have valued' : Valued list' := fun given member => valued given (perm.subset member)
  refine ⟨_, stored_complete atof memory' complete' valued' fits, ?_⟩
  intro d listed given member name text value
  have first := take_field_record atof memory complete listed member name value
  have second := take_field_record atof memory' complete' listed (perm.symm.subset member) name value
  exact first.trans second.symm

end values

/-- The list names the columns in another order than the relation. -/
theorem stores_values_reversed : ∃ site : InsertSite, site.columns = numbered.attrs ∧ ∃ bytes,
    site.Stored (fun _ => 0) (constant 7) [entry "b" (chars "xy"), entry "a" (formatInt (-7))]
      bytes ∧
    bytes.length = 12 ∧ bytes.take 4 = [249, 255, 255, 255] ∧
      (bytes.drop 4).take 3 = [120, 121, 0] := by
  obtain ⟨site, columns, _⟩ := exists_numbered
  have width : site.width = 12 := by
    rw [InsertSite.width, columns]
    rfl
  have complete : Complete site.columns [entry "b" (chars "xy"), entry "a" (formatInt (-7))] := by
    rw [columns]
    decide
  obtain ⟨bytes, stored, holds, _⟩ :=
    site.stores_values (width.trans_le (by decide)) (fun _ => 0) (constant 7) complete (by decide)
  have length := holds.width
  have number := holds.integer ⟨chars "r", chars "a", 0, 1, 4⟩ (by rw [columns]; decide) rfl
    (entry "a" (formatInt (-7))) (by simp) rfl (-7) (by decide) (by decide) rfl
  have string := holds.string ⟨chars "r", chars "b", 4, 0, 8⟩ (by rw [columns]; decide) rfl
    (entry "b" (chars "xy")) (by simp) rfl (chars "xy") rfl
  refine ⟨site, columns, bytes, stored, by omega, ?_, ?_⟩
  · exact number
  · rw [AttrDesc.field, List.take_take] at string
    exact string

/-- The attribute list accepts only what it should: it is complete and one tuple
is added, or there is an error and the relation is as before. Either way no
descriptor and no byte is used that is not there. -/
def Strict (site : InsertSite) (atof : Name → Nat) (memory : Memory) (list : List AttrInfo) :
    Prop :=
  ∃ status st', Returns Flat.handle (quInsert atof memory · site.relation list) site.st (status, st') ∧
    (status = .ok → Complete site.columns list ∧ ∃ records' bytes, Table st' site.relation id records' ∧
      Gained site.records records' [bytes] ∧ (bytes.length : Int) = site.width) ∧
    (status ≠ .ok → Table st' site.relation id site.records)

/-- A statement is treated so exactly if its list is complete, or counts columns
that are too wide for a page. -/
theorem strict_iff (site : InsertSite) (atof : Name → Nat) (memory : Memory)
    (valued : Valued list) :
    site.Strict atof memory list ↔ Complete site.columns list ∨
      list.length ≤ site.columns.length ∧ 1000 < AttrDesc.total (site.taken list) ∧
        copiedLength list (site.taken list) ≤ AttrDesc.total (site.taken list) := by
  have refuses (bounded : site.Bounded list) (large : 1000 < AttrDesc.total (site.taken list)) :
      site.Strict atof memory list := by
    obtain ⟨status, st', returns, failed, table⟩ := refused atof memory valued bounded large
    exact ⟨status, st', returns, fun ok => absurd ok failed, fun _ => table⟩
  constructor
  · rintro ⟨status, st', returns, ok, _⟩
    have bounded := bounded_of_returns valued returns
    by_cases large : 1000 < AttrDesc.total (site.taken list)
    · exact .inr ⟨bounded.1, large, bounded.2⟩
    -- what fits on a page is accepted
    have accepted : ∃ st', Returns Flat.handle (quInsert atof memory · site.relation list) site.st
        (.ok, st') := by
      have low := (site.taken_total list).1
      by_cases empty : AttrDesc.total (site.taken list) = 0
      · exact accepted_empty atof memory valued bounded empty
      · obtain ⟨st', _, returns', _⟩ := stored_record atof memory valued bounded (by omega) (by omega)
        exact ⟨st', returns'⟩
    obtain ⟨st'', returns'⟩ := accepted
    cases returns.unique returns'
    exact .inl (ok rfl).1
  · rintro (complete | ⟨short, large, room⟩)
    · have bounded := complete_bounded complete
      by_cases large : 1000 < AttrDesc.total (site.taken list)
      · exact refuses bounded large
      have positive := site.width_pos
      obtain ⟨st', records', returns, table, gained, _⟩ := stored_record atof memory valued bounded
        (by rw [complete_taken complete]; exact positive) (by omega)
      exact ⟨.ok, st', returns, fun _ =>
        ⟨complete, records', _, table, gained, (holds_record atof complete memory).width⟩,
        fun failed => absurd rfl failed⟩
    · exact refuses ⟨short, room⟩ large

/-- A list that names each column once. -/
theorem strict_complete : ∃ site : InsertSite, site.columns = numbered.attrs ∧
    site.Strict (fun _ => 0) (constant 7) [entry "b" (chars "xy"), entry "a" (formatInt 1)] := by
  obtain ⟨site, columns, _⟩ := exists_numbered
  exact ⟨site, columns,
    (site.strict_iff (fun _ => 0) (constant 7) (by decide)).mpr (.inl (by rw [columns]; decide))⟩

/-- A list that leaves out a column is accepted and stores a short record; one
that repeats a column writes behind the buffer, one that is too long reads a
descriptor that is not there. -/
theorem incomplete_lists : ∃ site : InsertSite, site.columns = numbered.attrs ∧
    (∃ bytes, site.Stored (fun _ => 0) (constant 7) [entry "a" (formatInt 1)] bytes ∧
      bytes.length = 4) ∧
    ∀ list ∈ [[entry "a" (formatInt 1)], [entry "b" (chars "xy"), entry "b" (chars "z")],
      [entry "a" (formatInt 1), entry "b" (chars "xy"), entry "c" (chars "z")]],
      ¬ Complete site.columns list ∧ ¬ site.Strict (fun _ => 0) (constant 7) list := by
  obtain ⟨site, columns, _⟩ := exists_numbered
  have bounded (list : List AttrInfo) : site.Bounded list ↔ list.length ≤ numbered.attrs.length ∧
      copiedLength list (numbered.attrs.take list.length) ≤
        AttrDesc.total (numbered.attrs.take list.length) := by
    rw [Bounded, taken, columns]
  have unbounded {list : List AttrInfo} (valued : Valued list) (out : ¬ site.Bounded list) :
      ¬ site.Strict (fun _ => 0) (constant 7) list := by
    rintro ⟨_, _, returns, _⟩
    exact out (bounded_of_returns valued returns)
  have short := stored_record (fun _ => 0) (constant 7) (by decide)
    ((bounded [entry "a" (formatInt 1)]).mpr (by decide))
    (by rw [taken, columns]; decide) (by rw [taken, columns]; decide)
  refine ⟨site, columns, ⟨_, short, ?_⟩, ?_⟩
  · rw [record, taken, columns]
    rfl
  · simp only [List.forall_mem_cons, List.not_mem_nil, false_imp_iff, implies_true, and_true]
    refine ⟨⟨by rw [columns]; decide, ?_⟩, ⟨by rw [columns]; decide, ?_⟩, ⟨by rw [columns]; decide, ?_⟩⟩
    · rintro ⟨status, st', returns, ok, _⟩
      obtain ⟨st'', _, returns', _⟩ := short
      cases returns.unique returns'
      exact absurd (ok rfl).1 (by rw [columns]; decide)
    · exact unbounded (by decide) (by rw [bounded]; decide)
    · exact unbounded (by decide) (by rw [bounded]; decide)

/-- The stored tuple is the same whatever the memory holds. -/
def Independent (site : InsertSite) (atof : Name → Nat) (list : List AttrInfo) : Prop :=
  ∀ memory memory' bytes bytes', site.Stored atof memory list bytes →
    site.Stored atof memory' list bytes' → bytes = bytes'

/-- Every string has as many bytes as its column, the terminator included. -/
def Filled (site : InsertSite) (list : List AttrInfo) : Prop :=
  ∀ d ∈ site.columns, d.attrType = 0 → ∀ given ∈ list, given.attrName = d.attrName →
    ∀ text, given.attrValue = some text → d.attrLen ≤ text.length + 1

theorem not_stored (valued : Valued list) (complete : Complete site.columns list)
    (large : 1000 < site.width) (bytes : List UInt8) : ¬ site.Stored atof memory list bytes := by
  rintro ⟨st', records', returns, _⟩
  have wide : 1000 < AttrDesc.total (site.taken list) := by
    rw [complete_taken complete]
    exact large
  obtain ⟨status, st'', returns', failed, _⟩ :=
    refused atof memory valued (complete_bounded complete) wide
  cases returns.unique returns'
  exact failed rfl

/-- A value that fills its column leaves nothing to the memory. -/
theorem record_of_filled (complete : Complete site.columns list) (valued : Valued list)
    (filled : site.Filled list) (memory memory' : Memory) :
    site.record atof memory list = site.record atof memory' list := by
  have column : ∀ d ∈ site.columns, columnBytes atof memory d 0 list =
      columnBytes atof memory' d 0 list := by
    intro d listed
    have name : d.attrName ∈ list.map AttrInfo.attrName :=
      complete.symm.subset (List.mem_map_of_mem listed)
    obtain ⟨given, member, name⟩ := List.mem_map.mp name
    obtain ⟨text, value⟩ := valued given member
    obtain ⟨j, same⟩ := field_record_value complete listed member name value
    have nothing : d.attrLen.toNat - (columnValue atof (datatypeOf d.attrType) text).length = 0 := by
      rcases (site.column listed).kind with zero | ⟨one | two, four⟩
      · have long := filled d listed zero given member name text value
        rw [columnValue_string zero, List.length_append, List.length_singleton]
        omega
      · rw [columnValue_integer one, four, encode_length]
        rfl
      · rw [columnValue_float two, four, encode_length]
        rfl
    rw [← field_record complete listed, ← field_record complete listed, same atof memory,
      same atof memory', nothing]
    rfl
  rw [complete_record complete, complete_record complete, List.flatMap_def, List.flatMap_def,
    List.map_congr_left column]

/-- A complete statement stores a tuple that does not depend on the memory exactly
if no tuple is stored or every string fills its column. -/
theorem independent_iff (site : InsertSite) (atof : Name → Nat)
    (complete : Complete site.columns list) (valued : Valued list) : site.Independent atof list ↔
      1000 < site.width ∨ site.Filled list := by
  constructor
  · intro independent
    by_contra neither
    rw [not_or, Filled] at neither
    push Not at neither
    obtain ⟨small, d, listed, type, given, member, name, text, value, longer⟩ := neither
    have stored (memory : Memory) := stored_complete atof memory complete valued small
    have same := independent _ _ _ _ (stored (constant 0)) (stored (constant 1))
    obtain ⟨j, field⟩ := field_record_value complete listed member name value
    have fields := (field atof (constant 0)).symm.trans
      ((congrArg d.field same).trans (field atof (constant 1)))
    have first : 0 < d.attrLen.toNat - (columnValue atof (datatypeOf d.attrType) text).length := by
      rw [columnValue_string type, List.length_append, List.length_singleton]
      omega
    rw [List.append_cancel_left_eq] at fields
    have byte := congrArg (·[0]?) fields
    simp [constant, first] at byte
  · rintro (large | filled) memory memory' bytes bytes' stored stored'
    · exact absurd stored (site.not_stored valued complete large bytes)
    · have small : site.width ≤ 1000 := not_lt.mp fun large =>
        site.not_stored valued complete large bytes stored
      rw [stored_unique stored (stored_complete atof memory complete valued small),
        stored_unique stored' (stored_complete atof memory' complete valued small)]
      exact record_of_filled site complete valued filled memory memory'

/-- A string that fills its column with its terminator. -/
theorem independent_filled : ∃ site : InsertSite, site.columns = numbered.attrs ∧
    site.Independent (fun _ => 0) [entry "b" (chars "abcdefg"), entry "a" (formatInt 1)] := by
  obtain ⟨site, columns, _⟩ := exists_numbered
  refine ⟨site, columns,
    (site.independent_iff (fun _ => 0) (by rw [columns]; decide) (by decide)).mpr (.inr ?_)⟩
  rw [Filled, columns]
  decide

/-- A short string is stored with what happens to follow it. -/
theorem short_string_leaks : ∃ site : InsertSite, site.columns = numbered.attrs ∧
    Complete site.columns [entry "a" (formatInt 1), entry "b" (chars "xy")] ∧
    ¬ site.Independent (fun _ => 0) [entry "a" (formatInt 1), entry "b" (chars "xy")] := by
  obtain ⟨site, columns, _⟩ := exists_numbered
  have complete : Complete site.columns [entry "a" (formatInt 1), entry "b" (chars "xy")] := by
    rw [columns]
    decide
  have fits : site.width ≤ 1000 := by
    rw [width, columns]
    decide
  refine ⟨site, columns, complete, fun independent => ?_⟩
  have same := independent _ _ _ _ (stored_complete (fun _ => 0) (constant 0) complete (by decide) fits)
    (stored_complete (fun _ => 0) (constant 1) complete (by decide) fits)
  rw [record, record, taken, columns] at same
  exact absurd same (by decide)

end InsertSite
end Minirel
