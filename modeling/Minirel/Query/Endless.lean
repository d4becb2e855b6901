import Minirel.Catalog.Capacity
import Minirel.HeapFile.Growth
import Minirel.Query.Join

/-! Queries that insert into a relation they read. The records that are inserted
lie ahead of the scan, which finds them in turn. A join also has no result if its
output does not fit on a page. -/
namespace Minirel
open Program

/-- What a relation has of the records that were added to the result. -/
def share (name result : Name) (added : List Entry) : List Entry :=
  if name = result then added else []

section share
variable {name result : Name} {added more : List Entry}

@[simp] theorem share_self : share name name added = added := if_pos rfl

@[simp] theorem share_nil : share name result [] = [] := ite_self _

theorem share_of_ne (apart : name ≠ result) : share name result added = [] := if_neg apart

theorem share_append : share name result (added ++ more) = share name result added ++
    share name result more := by
  by_cases same : name = result
  · simp [share, same]
  · simp [share, same]

theorem mem_share {e : Entry} (member : e ∈ share name result added) : name = result ∧
    e ∈ added := by
  by_cases same : name = result
  · exact ⟨same, by simpa [share, same] using member⟩
  · rw [share_of_ne same] at member
    cases member

end share

structure Grows (st st' : Flat) (result : Name) (added : List Entry) : Prop where
  opens : st'.openCnt = st.openCnt
  table : ∀ {name rows}, Table st name id rows → Table st' name id (rows ++ share name result added)
  cursor : ∀ {s name rows r todo}, CursorOn s st name id rows r todo →
    CursorOn s st' name id (rows ++ share name result added) r
      (todo ++ (share name result added).filter fun e => s.matchRec e.2)

namespace Grows
variable {st st' st'' : Flat} {result : Name} {added more : List Entry}

theorem refl (st : Flat) (result : Name) : Grows st st result [] := by
  refine ⟨rfl, fun table => ?_, fun on => ?_⟩
  · simpa using table
  · simpa using on

theorem trans (first : Grows st st' result added) (second : Grows st' st'' result more) :
    Grows st st'' result (added ++ more) := by
  refine ⟨second.opens.trans first.opens, fun table => ?_, fun on => ?_⟩
  · simpa [share_append] using second.table (first.table table)
  · simpa [share_append] using second.cursor (first.cursor on)

theorem closed {file : Name} (grows : Grows (st.opened file) st' result added) :
    Grows st (st'.closed file) result added := by
  refine ⟨?_, fun table => ?_, fun on => ?_⟩
  · rw [← congrArg Flat.openCnt (Flat.closed_opened st file)]
    simp only [Flat.closed, grows.opens]
  · exact (grows.table (table.congr rfl)).congr rfl
  · exact (grows.cursor (on.congr rfl)).congr rfl

end Grows

variable {st st' : Flat} {h h' : HeapFile} {s s' : HeapFileScan} {result outer inner : Name}
    {descs : List AttrDesc}
  {rows records others todo base : List Entry} {reclen : Int}

theorem Appender.grow {bytes : List UInt8} (appender : Appender h st result rows)
    (nonempty : 0 < bytes.length) (small : bytes.length ≤ 1000) :
    ∃ rid h' st', Flat.run (InsertFileScan.insertRecord h (.ofBytes bytes)) st =
      some ((.ok rid, h'), st') ∧ Appender h' st' result (rows ++ [(rid, bytes)]) ∧
        Grows st st' result [(rid, bytes)] := by
  obtain ⟨rid, h', g, run, appender', follow⟩ := appender.insert nonempty small
  refine ⟨rid, h', _, run, appender', rfl, fun {name rows'} table => ?_,
    fun {s name rows' r todo} on => ?_⟩
  · by_cases same : name = result
    · subst same
      cases table.unique appender.inserter.table
      simpa using appender'.inserter.table
    · rw [share_of_ne same, List.append_nil]
      exact table.congr (Flat.files_put_of_ne g same)
  · by_cases same : name = result
    · subst same
      cases on.cursor.table.unique appender.inserter.table
      simpa [List.filter_singleton, Bool.cond_eq_ite] using follow s r todo on
    · rw [share_of_ne same, List.filter_nil, List.append_nil, List.append_nil]
      exact on.congr (Flat.files_put_of_ne g same)

theorem Appender.output {source : AttrDesc → List UInt8} (appender : Appender h st result rows)
    (inside : ∀ d ∈ descs, d.Inside (source d)) (total : reclen = AttrDesc.total descs)
    (low : 1 ≤ reclen) (high : reclen ≤ 1000) :
    ∃ rid h' st', Flat.run (InsertFileScan.insertRecord h ⟨projection source descs, reclen⟩) st =
        some ((.ok rid, h'), st') ∧
      Appender h' st' result (rows ++ [(rid, projection source descs)]) ∧
      Grows st st' result [(rid, projection source descs)] := by
  have length := projection_length inside
  rw [output_eq inside total]
  exact appender.grow (by omega) (by omega)

/-! Selection. -/

/-- A record that meets the condition and is its own projection is inserted again
and again. -/
theorem selectLoop_endless {b : List UInt8} (fuel : Nat) (cursor : Cursor s st result id rows todo)
    (appender : Appender h st result rows) (more : todo ≠ []) (alike : ∀ r ∈ todo, r.2 = b)
    (matching : s.matchRec b = true) (inside : ∀ d ∈ descs, d.Inside b)
    (fixed : projection (fun _ => b) descs = b) (total : reclen = AttrDesc.total descs)
    (low : 1 ≤ reclen) (high : reclen ≤ 1000) :
    Flat.run (selectLoop (descs.map some) reclen fuel s h) st = none := by
  induction fuel generalizing st s h rows todo with
  | zero => rfl
  | succ fuel ih =>
    cases todo with
    | nil => exact absurd rfl more
    | cons r todo =>
      rw [List.forall_mem_cons] at alike
      obtain ⟨t, next, filter, on⟩ := cursor.advance
      simp only [selectLoopBy, monadLift_self]
      rcases (HeapFileScan.scanNext_steady s).run_bind next fuel _ with ended | goes
      · exact ended
      · have copy := copyAttrs_spec st inside
        obtain ⟨rid, h', st', insert, appender', grows⟩ := appender.output inside total low high
        rw [fixed] at copy insert appender' grows
        have matching' : t.matchRec b = true := by rwa [HeapFileScan.matchRec, filter]
        have on' := grows.cursor on
        rw [share_self, List.filter_singleton, matching', cond_true] at on'
        have again := ih on'.cursor appender' (by simp)
          (List.forall_mem_append.mpr ⟨alike.2, by simp⟩) matching'
        have record := on.getRecord
        rw [id_eq, alike.1] at record
        rw [Flat.run, goes]
        simp only [ne_eq, not_true_eq_false, if_false]
        rw [run_bind_of _ _ record]
        simp only
        rw [run_bind_of _ _ copy, run_bind_of _ _ insert]
        exact again

theorem scanSelect_endless {name : Name} {attrs : List AttrDesc} {filter : Option Filter}
    {b : List UInt8} (relation : Relation st name attrs rows) (packed : TableAt st name id rows [])
    (more : rows ≠ []) (alike : ∀ r ∈ rows, r.2 = b)
    (accepted : ∀ φ, filter = some φ → φ.accepted = true)
    (matching : filter.all (·.matchRec b) = true) (listed : ∀ d ∈ descs, d ∈ attrs)
    (fixed : projection (fun _ => b) descs = b) (low : 1 ≤ AttrDesc.total descs)
    (high : AttrDesc.total descs ≤ 1000) (fuel : Nat) :
    Flat.run (scanSelect fuel name (descs.map some) filter (AttrDesc.total descs)) st = none := by
  obtain ⟨r, rest, rfl⟩ := List.exists_cons_of_ne_nil more
  have inside : ∀ d ∈ descs, d.Inside b := fun d of => by
    rw [← alike r List.mem_cons_self]
    exact relation.inside (listed d of) List.mem_cons_self
  have all : (r :: rest).filter (fun r => filter.all (·.matchRec r.2)) = r :: rest :=
    List.filter_eq_self.mpr fun r member => by rw [alike r member, matching]
  cases descs with
  | nil => exact absurd low (by decide)
  | cons first descs =>
    have source : first.relName = name := relation.relName (listed first List.mem_cons_self)
    obtain ⟨h, newResult, appender⟩ := packed.openAppender relation.named
    have table : Table (st.opened name) name id (r :: rest) := relation.table.congr rfl
    obtain ⟨s, newScan, fresh, cursor⟩ := table.open relation.named
    obtain ⟨t, start, set, cursor'⟩ := cursor.start fresh accepted
    simp only [id_eq, all] at cursor'
    have matching' : t.matchRec b = true := by
      rw [HeapFileScan.matchRec, set]
      cases filter with
      | none => rfl
      | some φ => simpa using matching
    have stuck := selectLoop_endless fuel cursor' (appender.congr rfl) more alike matching' inside
      fixed rfl low high
    simp only [scanSelectBy, monadLift_self]
    rw [Flat.run, run_bind_of _ _ newResult]
    simp only [List.map_cons, source]
    rw [run_bind_of _ _ newScan]
    simp only [start, ne_eq, not_true_eq_false, if_false]
    rw [run_bind, ← List.map_cons, ← Flat.run, stuck]
    rfl

/-! Nested loops join. -/

section join
variable {attrDesc1 attrDesc2 : AttrDesc} {op : Operator} {width width' : Int}

/-- A join of two relations whose tuples have these widths. An output record that
goes to one of the relations has the width of its tuples. -/
structure Joins (outer inner result : Name) (descs : List AttrDesc) (attrDesc1 attrDesc2 : AttrDesc)
    (op : Operator) (width width' : Int) : Prop where
  named : inner ≠ []
  first : attrDesc1.relName = outer
  second : attrDesc2.relName = inner
  type : 0 ≤ attrDesc2.attrType ∧ attrDesc2.attrType ≤ 2
  accepted : ∀ o, (joinFilter attrDesc1 attrDesc2 op o).accepted = true
  inside : ∀ o i : List UInt8, (o.length : Int) = width → (i.length : Int) = width' →
    ∀ d ∈ descs, d.Inside (joinSource outer o i d)
  low : 1 ≤ AttrDesc.total descs
  high : AttrDesc.total descs ≤ 1000
  outerWidth : outer = result → AttrDesc.total descs = width
  innerWidth : inner = result → AttrDesc.total descs = width'

/-- The inner relation may be the result: its scan meets what it adds. -/
theorem innerLoop_grows (joins : Joins outer inner result descs attrDesc1 attrDesc2 op width width')
    {outerRec : List UInt8} (sized : (outerRec.length : Int) = width) (fuel : Nat)
    (cursor : Cursor s st inner id others todo) (appender : Appender h st result rows)
    (widths : ∀ i ∈ todo, (i.2.length : Int) = width')
    (returned : Flat.run (innerLoop descs (AttrDesc.total descs) outer outerRec fuel s h) st =
      some ((s', h'), st')) :
    ∃ added, Grows st st' result added ∧ Appender h' st' result (rows ++ added) ∧
      s'.filePtr = inner ∧
        (todo.map fun i => projection (joinSource outer outerRec i.2) descs).Sublist
          (added.map Prod.snd) ∧
      ∀ r ∈ added, (r.2.length : Int) = AttrDesc.total descs := by
  induction fuel generalizing st s h rows others todo with
  | zero => cases returned
  | succ fuel ih =>
    simp only [innerLoopBy, monadLift_self] at returned
    rw [Flat.run] at returned
    cases todo with
    | nil =>
      obtain ⟨t, next, cursor'⟩ := cursor.eof
      rcases (HeapFileScan.scanNext_steady s).run_bind next fuel _ with ended | goes
      · rw [ended] at returned
        cases returned
      · rw [goes] at returned
        cases returned
        exact ⟨[], .refl _ result, by simpa using appender, cursor'.file, by simp, by simp⟩
    | cons i todo =>
      rw [List.forall_mem_cons] at widths
      obtain ⟨t, next, filter, on⟩ := cursor.advance
      rcases (HeapFileScan.scanNext_steady s).run_bind next fuel _ with ended | goes
      · rw [ended] at returned
        cases returned
      · have inside := joins.inside outerRec i.2 sized widths.1
        obtain ⟨rid, h₁, st₁, insert, appender', grows⟩ :=
          appender.output inside rfl joins.low joins.high
        rw [goes] at returned
        simp only [ne_eq, not_true_eq_false, if_false] at returned
        rw [run_bind_of _ _ on.getRecord] at returned
        simp only [id_eq] at returned
        rw [run_bind_of _ _ (copyAttrs_spec st inside), run_bind_of _ _ insert] at returned
        have width := projection_length inside
        obtain ⟨added, grows', appender'', file, outputs, sizes⟩ :=
          ih (grows.cursor on).cursor appender' (by
          refine List.forall_mem_append.mpr ⟨widths.2, fun r member => ?_⟩
          obtain ⟨same, member⟩ := mem_share (List.mem_of_mem_filter member)
          rw [List.mem_singleton.mp member, width, joins.innerWidth same]) returned
        refine ⟨(rid, projection (joinSource outer outerRec i.2) descs) :: added,
          grows.trans grows', ?_, file, ?_, ?_⟩
        · simpa using appender''
        · rw [List.map_cons, List.map_cons]
          exact .cons_cons _ ((List.sublist_append_left ..).trans (List.map_append ▸ outputs))
        · exact List.forall_mem_cons.mpr ⟨width, sizes⟩

/-- One round of the outer loop. The outer scan has no filter, so it has all the
new records ahead if they are its own. -/
theorem outerLoop_step (joins : Joins outer inner result descs attrDesc1 attrDesc2 op width width')
    {o : Entry} {r : (Status × HeapFileScan × HeapFile) × Flat} {fuel : Nat}
    (cursor : Cursor s st outer id records (o :: todo)) (fresh : s.filter = none)
    (appender : Appender h st result rows) (table : Table st inner id others)
    (sized : (o.2.length : Int) = width) (widths : ∀ i ∈ others, (i.2.length : Int) = width')
    (returned : Flat.run
      (outerLoop descs (AttrDesc.total descs) attrDesc1 attrDesc2 op.flip (fuel + 1) s h) st =
        some r) :
    ∃ t h' st' added, Grows st st' result added ∧ Appender h' st' result (rows ++ added) ∧
      Cursor t st' outer id (records ++ share outer result added)
        (todo ++ share outer result added) ∧ t.filter = none ∧
      (joined outer descs attrDesc1 attrDesc2 op [o] others).Sublist (added.map Prod.snd) ∧
      (∀ r ∈ added, (r.2.length : Int) = AttrDesc.total descs) ∧
      Flat.run (outerLoop descs (AttrDesc.total descs) attrDesc1 attrDesc2 op.flip fuel t h') st' =
        some r := by
  obtain ⟨t, next, filter, on⟩ := cursor.advance
  obtain ⟨i, newInner, fresh', inners⟩ := table.open joins.named
  obtain ⟨j, start, _, matching⟩ := inners.restrict fresh' (joins.accepted o.2)
  simp only [outerLoopBy, monadLift_self] at returned
  rw [Flat.run] at returned
  rcases (HeapFileScan.scanNext_steady s).run_bind next fuel _ with ended | goes
  · rw [ended] at returned
    cases returned
  · rw [goes] at returned
    simp only [ne_eq, not_true_eq_false, if_false] at returned
    rw [run_bind_of _ _ on.getRecord] at returned
    simp only [id_eq, joins.second] at returned
    rw [run_bind_of _ _ newInner] at returned
    simp only [startInner_eq joins.type, start, not_true_eq_false, if_false, joins.first] at returned
    obtain ⟨⟨j', h'⟩, st₁, loop, rest⟩ := run_bind_inv _ _ returned
    obtain ⟨added, grows, appender', file, outputs, sizes⟩ := innerLoop_grows joins sized fuel matching
      (appender.congr rfl : Appender h (st.opened inner) result rows)
      (fun i member => widths i (List.mem_of_mem_filter member)) loop
    have isOpen : st₁.openCnt inner ≠ 0 := by
      rw [grows.opens]
      simp
    rw [run_bind_of _ _ (HeapFileScan.delete_spec file isOpen)] at rest
    have grows' : Grows st (st₁.closed inner) result added := grows.closed
    have fresh'' : t.filter = none := filter.trans fresh
    have on' := grows'.cursor on
    simp only [HeapFileScan.matchRec, fresh'', List.filter_true] at on'
    refine ⟨t, h', _, added, grows', appender'.congr rfl, on'.cursor, fresh'', ?_, sizes, rest⟩
    simpa [joined] using outputs

theorem joined_append (front back : List Entry) :
    joined outer descs attrDesc1 attrDesc2 op (front ++ back) base =
    joined outer descs attrDesc1 attrDesc2 op front base ++ joined outer descs attrDesc1 attrDesc2
      op back base :=
  List.flatMap_append

theorem joined_sublist (o : Entry) (part : base.Sublist others) :
    (joined outer descs attrDesc1 attrDesc2 op [o] base).Sublist
      (joined outer descs attrDesc1 attrDesc2 op [o] others) := by
  simpa [joined] using (part.filter _).map _

/-- If the loop ends, then each record that the outer scan meets, new ones
included, has brought its matches among the records that were there. -/
theorem outerLoop_grows (joins : Joins outer inner result descs attrDesc1 attrDesc2 op width width')
    {status : Status} (fuel : Nat) (cursor : Cursor s st outer id records todo)
    (fresh : s.filter = none) (appender : Appender h st result rows)
    (table : Table st inner id others) (sized : ∀ o ∈ todo, (o.2.length : Int) = width)
    (widths : ∀ i ∈ others, (i.2.length : Int) = width') (part : base.Sublist others)
    (returned : Flat.run
      (outerLoop descs (AttrDesc.total descs) attrDesc1 attrDesc2 op.flip fuel s h) st =
        some ((status, s', h'), st')) :
    ∃ added, Grows st st' result added ∧ Appender h' st' result (rows ++ added) ∧
      s'.filePtr = outer ∧
        joined outer descs attrDesc1 attrDesc2 op todo base ⊆ added.map Prod.snd ∧
      (joined outer descs attrDesc1 attrDesc2 op (todo ++ share outer result added) base).length ≤
        added.length := by
  induction fuel generalizing st s h rows records others todo with
  | zero => cases returned
  | succ fuel ih =>
    cases todo with
    | nil =>
      obtain ⟨t, next, cursor'⟩ := cursor.eof
      simp only [outerLoopBy, monadLift_self] at returned
      rw [Flat.run] at returned
      rcases (HeapFileScan.scanNext_steady s).run_bind next fuel _ with ended | goes
      · rw [ended] at returned
        cases returned
      · rw [goes] at returned
        cases returned
        exact ⟨[], .refl _ result, by simpa using appender, cursor'.file, by simp [joined],
          by simp [joined]⟩
    | cons o todo =>
      rw [List.forall_mem_cons] at sized
      obtain ⟨t, h₁, st₁, added, grows, appender', cursor', fresh', outputs, sizes, rest⟩ :=
        outerLoop_step joins cursor fresh appender table sized.1 widths returned
      have new (name : Name) (width : Int) (same : name = result → AttrDesc.total descs = width) :
          ∀ r ∈ share name result added, (r.2.length : Int) = width := fun r member => by
        obtain ⟨eq, member⟩ := mem_share member
        rw [sizes r member, same eq]
      obtain ⟨added', grows', appender'', file, outputs', count⟩ :=
        ih cursor' fresh' appender' (grows.table table)
        (List.forall_mem_append.mpr ⟨sized.2, new outer width joins.outerWidth⟩)
        (List.forall_mem_append.mpr ⟨widths, new inner width' joins.innerWidth⟩)
        (part.trans (List.sublist_append_left ..)) rest
      have ofFirst := (joined_sublist o part).trans outputs
      rw [← List.singleton_append, joined_append]
      refine ⟨added ++ added', grows.trans grows', by simpa using appender'', file, ?_, ?_⟩
      · rw [List.map_append, List.append_subset]
        rw [joined_append, List.append_subset] at outputs'
        exact ⟨fun b member => List.mem_append_left _ (ofFirst.subset member),
          fun b member => List.mem_append_right _ (outputs'.1 member)⟩
      · have length := ofFirst.length_le
        rw [List.length_map] at length
        rw [share_append, List.append_assoc, joined_append, List.length_append, List.length_append,
          ← List.append_assoc]
        omega

theorem joinScan_loop (joins : Joins outer inner result descs attrDesc1 attrDesc2 op width width')
    {status : Status} {fuel : Nat} (packed : TableAt st result id rows [])
    (resultNamed : result ≠ []) (outerNamed : outer ≠ []) (table : Table st outer id records)
    (table' : Table st inner id others) (sized : ∀ o ∈ records, (o.2.length : Int) = width)
    (widths : ∀ i ∈ others, (i.2.length : Int) = width')
    (returned : Flat.run (joinScan fuel result descs attrDesc1 op attrDesc2) st =
      some (status, st')) :
    ∃ s h st₀ s' h' st₁, st₀.files = st.files ∧ st'.files = st₁.files ∧
      Cursor s st₀ outer id records records ∧ s.filter = none ∧ Appender h st₀ result rows ∧
      Flat.run (outerLoop descs (AttrDesc.total descs) attrDesc1 attrDesc2 op.flip fuel s h) st₀ =
        some ((status, s', h'), st₁) := by
  have total : int (descs.map AttrDesc.attrLen).sum = AttrDesc.total descs := by
    have low := joins.low
    have high := joins.high
    rw [AttrDesc.total] at low high ⊢
    exact int_of_fits (by omega) (by omega)
  obtain ⟨h, newResult, appender⟩ := packed.openAppender resultNamed
  have table₁ : Table (st.opened result) outer id records := table.congr rfl
  obtain ⟨s, newScan, fresh, cursor⟩ := table₁.open outerNamed
  simp only [joinScanBy, monadLift_self] at returned
  rw [Flat.run, run_bind_of _ _ newResult] at returned
  simp only [joins.first] at returned
  rw [run_bind_of _ _ newScan] at returned
  simp only [Cursor.startScan_none fresh, total] at returned
  obtain ⟨⟨status', s', h'⟩, st₁, loop, rest⟩ := run_bind_inv _ _ returned
  have appender' : Appender h ((st.opened result).opened outer) result rows := appender.congr rfl
  have table₂ : Table ((st.opened result).opened outer) inner id others := table'.congr rfl
  obtain ⟨added, grows, inserter, file, _⟩ :=
    outerLoop_grows joins fuel cursor fresh appender' table₂ sized widths (List.nil_sublist _) loop
  have isOpen : st₁.openCnt outer ≠ 0 := by
    rw [grows.opens]
    simp
  rw [run_bind_of _ _ (HeapFileScan.delete_spec file isOpen)] at rest
  have isOpen' : (st₁.closed outer).openCnt result ≠ 0 := by
    rw [grows.closed.opens]
    simp
  rw [run_bind_of _ _ (InsertFileScan.delete_spec inserter.inserter.file isOpen')] at rest
  cases rest
  exact ⟨s, h, (st.opened result).opened outer, s', h', st₁, rfl, rfl, cursor, fresh, appender', loop⟩

end join

/-! Output that does not fit on a page. -/

section oversized
variable {attrs attrs' : List AttrDesc} {results : List Entry} {attrDesc1 attrDesc2 : AttrDesc}
    {op : Operator} {o : Entry}

/-- The assertion fails that the output was inserted. -/
theorem innerLoop_oversized {outerRec : List UInt8} (fuel : Nat)
    (cursor : Cursor s st inner id others (o :: todo))
    (inserter : Inserter h st result results)
    (inside : ∀ d ∈ descs, d.Inside (joinSource outer outerRec o.2 d))
    (total : reclen = AttrDesc.total descs) (wide : 1000 < reclen) :
    Flat.run (innerLoop descs reclen outer outerRec fuel s h) st = none := by
  cases fuel with
  | zero => rfl
  | succ fuel =>
    obtain ⟨t, next, on⟩ := cursor.next
    obtain ⟨f, hdr, chain, there, heap, _, opened⟩ := inserter
    have length := projection_length inside
    have large : 1000 < (projection (joinSource outer outerRec o.2) descs).length := by omega
    obtain ⟨status, h', st', refused, _⟩ := InsertFileScan.insertRecord_refuses heap there opened large
    rw [← output_eq inside total] at refused
    simp only [innerLoopBy, monadLift_self]
    rcases (HeapFileScan.scanNext_steady s).run_bind next fuel _ with ended | goes
    · exact ended
    · rw [Flat.run, goes]
      simp only [ne_eq, not_true_eq_false, if_false]
      rw [run_bind_of _ _ on.getRecord]
      simp only [id_eq]
      rw [run_bind_of _ _ (copyAttrs_spec st inside), run_bind_of _ _ refused]
      rfl

theorem outerLoop_oversized (fuel : Nat) (cursor : Cursor s st outer id records (o :: todo))
    (inserter : Inserter h st result results) (table : Table st inner id others)
    (named : inner ≠ []) (first : attrDesc1.relName = outer) (second : attrDesc2.relName = inner)
    (type : 0 ≤ attrDesc2.attrType ∧ attrDesc2.attrType ≤ 2)
    (accepted : (joinFilter attrDesc1 attrDesc2 op o.2).accepted = true)
    (inside : ∀ i ∈ others, ∀ d ∈ descs, d.Inside (joinSource outer o.2 i.2 d))
    (total : reclen = AttrDesc.total descs) (wide : 1000 < reclen) {i : Entry} (member : i ∈ others)
    (meets : (joinFilter attrDesc1 attrDesc2 op o.2).matchRec i.2 = true) :
    Flat.run (outerLoop descs reclen attrDesc1 attrDesc2 op.flip fuel s h) st = none := by
  cases fuel with
  | zero => rfl
  | succ fuel =>
    obtain ⟨t, next, on⟩ := cursor.next
    obtain ⟨scan, newInner, fresh, inners⟩ := table.open named
    obtain ⟨j, start, matching⟩ := inners.startScan fresh accepted
    -- the inner scan has a match ahead
    have listed : i ∈ others.filter fun i => (joinFilter attrDesc1 attrDesc2 op o.2).matchRec i.2 :=
      List.mem_filter.mpr ⟨member, meets⟩
    obtain ⟨i', todo', split⟩ := List.exists_cons_of_ne_nil (List.ne_nil_of_mem listed)
    simp only [id_eq, split] at matching
    have inserter' : Inserter h (st.opened inner) result results := inserter.congr rfl
    have stuck := innerLoop_oversized fuel matching inserter'
      (inside i' (List.mem_of_mem_filter (split ▸ List.mem_cons_self))) total wide
    simp only [outerLoopBy, monadLift_self]
    rcases (HeapFileScan.scanNext_steady s).run_bind next fuel _ with ended | goes
    · exact ended
    · rw [Flat.run, goes]
      simp only [ne_eq, not_true_eq_false, if_false]
      rw [run_bind_of _ _ on.getRecord]
      simp only [id_eq, second]
      rw [run_bind_of _ _ newInner]
      simp only [startInner_eq type, start, not_true_eq_false, if_false, first]
      rw [run_bind, ← Flat.run, stuck]
      rfl

/-- A join whose first tuple has a match does not return if its output does not fit
on a page. -/
theorem joinScan_oversized (relation : Relation st outer attrs (o :: todo))
    (relation' : Relation st inner attrs' others)
    (listed₁ : attrDesc1 ∈ attrs) (listed₂ : attrDesc2 ∈ attrs')
    (type : 0 ≤ attrDesc2.attrType ∧ attrDesc2.attrType ≤ 2)
    (accepted : (joinFilter attrDesc1 attrDesc2 op o.2).accepted = true)
    (table : Table st result id results) (resultNamed : result ≠ [])
    (listed : ∀ d ∈ descs, d ∈ attrs ∨ d ∈ attrs') (wide : 1000 < AttrDesc.total descs)
    (high : AttrDesc.total descs < 2 ^ 31) {i : Entry} (member : i ∈ others)
    (meets : (joinFilter attrDesc1 attrDesc2 op o.2).matchRec i.2 = true) (fuel : Nat) :
    Flat.run (joinScan fuel result descs attrDesc1 op attrDesc2) st = none := by
  have first : attrDesc1.relName = outer := relation.relName listed₁
  have width : int (descs.map AttrDesc.attrLen).sum = AttrDesc.total descs := int_of_fits (by
    rw [AttrDesc.total] at wide
    omega) high
  obtain ⟨h, newResult, inserter⟩ := table.openInserter resultNamed
  have table' : Table (st.opened result) outer id (o :: todo) := relation.table.congr rfl
  obtain ⟨s, newScan, fresh, cursor⟩ := table'.open relation.named
  have inserter' : Inserter h ((st.opened result).opened outer) result results := inserter.congr rfl
  have stuck := outerLoop_oversized fuel cursor inserter' (relation'.table.congr rfl)
    relation'.named first
    (relation'.relName listed₂) type accepted
    (fun i member' d of => joinSource_inside relation relation' List.mem_cons_self member'
      (listed d of)) rfl wide member meets
  simp only [joinScanBy, monadLift_self]
  rw [Flat.run, run_bind_of _ _ newResult]
  simp only [first]
  rw [run_bind_of _ _ newScan]
  simp only [Cursor.startScan_none fresh, width]
  rw [run_bind, ← Flat.run, stuck]
  rfl

end oversized
end Minirel
