import Minirel.HeapFile.Deletion

/-! Going back in a scan. Deletions leave the pages of the chain where they are
and take slots away, so that a page number and a slot number still say where the
scan was. -/
namespace Minirel
open Enumerate Program

/-- The same pages, without the records of these identifiers. -/
def Thinned (gone : List RID) : Chain → Chain → Prop :=
  List.Forall₂ fun a b => b.1 = a.1 ∧ ∀ k, b.2.binding k = if decide ((⟨a.1, k⟩ : RID) ∉ gone)
    then a.2.binding k else none

namespace Thinned
variable {gone gone' : List RID} {chain chain' chain'' pre post : Chain} {n k : Int} {p q : Page}

theorem refl (chain : Chain) : Thinned [] chain chain := by
  induction chain with
  | nil => exact .nil
  | cons e rest ih => exact .cons ⟨rfl, fun k => by simp⟩ ih

theorem trans (first : Thinned gone chain chain') (second : Thinned gone' chain' chain'') :
    Thinned (gone ++ gone') chain chain'' := by
  induction first generalizing chain'' with
  | nil =>
    cases second
    exact .nil
  | @cons a b _ _ thin _ ih =>
    cases second with
    | @cons _ c _ _ thin' rest =>
      refine .cons ⟨thin'.1.trans thin.1, fun k => ?_⟩ (ih rest)
      rw [thin'.2, thin.2, thin.1]
      by_cases before : (⟨a.1, k⟩ : RID) ∈ gone
      · simp [before]
      · simp [before]

theorem single (unbinds : p.Unbinds k q) (distinct : ((pre ++ (n, p) :: post).map Prod.fst).Nodup) :
    Thinned [⟨n, k⟩] (pre ++ (n, p) :: post) (pre ++ (n, q) :: post) := by
  have others {part : Chain} (apart : n ∉ part.map Prod.fst) : Thinned [⟨n, k⟩] part part := by
    induction part with
    | nil => exact .nil
    | cons e rest ih =>
      rw [List.map_cons, List.mem_cons, not_or] at apart
      refine .cons ⟨rfl, fun j => ?_⟩ (ih apart.2)
      simp [Ne.symm apart.1]
  rw [List.map_append, List.map_cons, List.nodup_middle, List.nodup_cons, List.mem_append,
    not_or] at distinct
  refine List.rel_append (others distinct.1.1) (.cons ⟨rfl, fun j => ?_⟩ (others distinct.1.2))
  rw [unbinds.binding]
  by_cases same : j = k
  · simp [same]
  · simp [same]

theorem entries (thinned : Thinned gone chain chain') :
    chain'.entries = chain.entries.filter (·.1 ∉ gone) := by
  induction thinned with
  | nil => rfl
  | @cons a b _ _ thin _ ih =>
    obtain ⟨n, p⟩ := a
    obtain ⟨m, q⟩ := b
    obtain ⟨rfl, thin⟩ := thin
    rw [Chain.entries_cons, Chain.entries_cons, List.filter_append, ih, Page.entries,
      span_filter _ thin, onPage, onPage, List.filter_map]
    rfl

theorem position (thinned : Thinned gone (pre ++ (n, p) :: post) chain') :
    ∃ pre' q post', chain' = pre' ++ (n, q) :: post' ∧
      ∀ k, onPage n (q.after k) ++ Chain.entries post' =
        (onPage n (p.after k) ++ Chain.entries post).filter (·.1 ∉ gone) := by
  induction pre generalizing chain' with
  | nil =>
    obtain ⟨⟨m, q⟩, post', ⟨rfl, thin⟩, rest, rfl⟩ := List.forall₂_cons_left_iff.mp thinned
    refine ⟨[], q, post', rfl, fun k => ?_⟩
    rw [List.filter_append, Thinned.entries rest, Page.after, span_filter _ thin, onPage, onPage,
      List.filter_map]
    rfl
  | cons e pre ih =>
    obtain ⟨e', rest', _, rest, rfl⟩ := List.forall₂_cons_left_iff.mp thinned
    obtain ⟨pre', q, post', rfl, same⟩ := ih rest
    exact ⟨e' :: pre', q, post', rfl, same⟩

end Thinned

namespace HeapFileScan
variable {st : Flat} {name : Name} {f g : FlatFile} {hdr : FileHdrPage} {chain chain' : Chain}
    {s t : HeapFileScan}
  {todo records : List Entry} {pages : Finset (Name × Int)}

/-- A `scanNext` for each member of the plan, followed by a `deleteRecord` where
the plan says so and a record was returned. The identifiers of the deleted
records are returned. -/
def walk (fuel : Nat) : List Bool → HeapFileScan → Prog (List RID × HeapFileScan)
  | [], s => return ([], s)
  | drop :: plan, s => do
    let (status, s) ← s.scanNext fuel
    if status = .ok ∧ drop = true then
      let (_, t) ← s.deleteRecord
      let (gone, t) ← walk fuel plan t
      return (s.curRec :: gone, t)
    else walk fuel plan s

theorem walk_spec (plan : List Bool) (heap : Heap f hdr chain) (there : st.files name = some f)
    (here : s.At name f chain todo) :
    ∃ gone t g hdr' chain' todo',
      Returns Flat.handle (walk · plan s) st ((gone, t), st.put name g) ∧
      Heap g hdr' chain' ∧ t.At name g chain' todo' ∧ t.filter = s.filter ∧
        g.firstPage = f.firstPage ∧
      Thinned gone chain chain' := by
  induction plan generalizing s st f hdr chain todo with
  | nil => exact ⟨[], s, f, hdr, chain, todo, .of_run (by rw [Flat.put_self there]; rfl), heap,
      here, rfl, rfl, .refl _⟩
  | cons drop plan ih =>
    obtain ⟨_, next, scanned⟩ := scanNext_spec heap there here
    have skip {status : Status} {t : HeapFileScan} {rest : List Entry}
      (keep : ¬ (status = .ok ∧ drop = true))
        (next : Returns Flat.handle (scanNext · s) st ((status, t), st)) (filter : t.filter = s.filter)
        (at' : t.At name f chain rest) : ∃ gone u g hdr' chain' todo',
          Returns Flat.handle (walk · (drop :: plan) s) st ((gone, u), st.put name g) ∧
            Heap g hdr' chain' ∧
          u.At name g chain' todo' ∧ u.filter = s.filter ∧ g.firstPage = f.firstPage ∧
            Thinned gone chain chain' := by
      obtain ⟨gone, u, g, hdr', chain', todo', rest, heap', at'', filter', first, thinned⟩ :=
        ih heap there at'
      refine ⟨gone, u, g, hdr', chain', todo', .bind next ?_, heap', at'', filter'.trans filter,
        first, thinned⟩
      simp only [keep, if_false]
      exact rest
    cases scanned with
    | eof t filter ended => exact skip (by simp) next filter ended
    | found t front rid b rest filter _ _ _ on =>
      cases drop with
      | false => exact skip (by simp) next filter on.at
      | true =>
        have nonneg := on.at.slot
        obtain ⟨rfl, pre, p, post, rfl, opened, bound, rfl⟩ := on
        obtain ⟨q, g, delete, unbinds, heap', first⟩ :=
          deleteRecord_unbinds heap there opened.file opened.header
          opened.page (by simp [bound])
        have opened' := opened.congr first
        have at' : HeapFileScan.At { t with curDirtyFlag := true, hdrDirtyFlag := true } name g
            (pre ++ (t.curRec.pageNo, q) :: post)
              (onPage t.curRec.pageNo (q.after t.curRec.slotNo) ++ Chain.entries post) :=
          ⟨nonneg, pre, _, q, post, rfl,
            ⟨opened'.file, opened'.header, opened'.page, opened'.number⟩, rfl⟩
        obtain ⟨gone, u, g', hdr', chain', todo', rest, heap'', at'', filter', first', thinned⟩ :=
          ih heap' (Flat.files_put st name g) at'
        rw [Flat.put_put] at rest
        refine ⟨t.curRec :: gone, u, g', hdr', chain', todo', .bind next ?_, heap'', at'',
          filter'.trans filter,
          first'.trans first, (Thinned.single unbinds heap.distinct).trans thinned⟩
        simp only [and_self, if_true]
        exact .after delete (.bind rest (.of_run rfl))

/-- Back on a page whose records may have changed since. -/
theorem resetScan_spec {pre post : Chain} {n : Int} {p : Page} {rid : RID}
    (heap : Heap f hdr (pre ++ (n, p) :: post)) (there : st.files name = some f)
    (here : s.At name f (pre ++ (n, p) :: post) todo) (slot : -1 ≤ rid.slotNo) :
    ∃ t, Flat.run (s.resetScan ⟨n, rid⟩) st = some ((.ok, t), st) ∧ t.filter = s.filter ∧
      t.At name f (pre ++ (n, p) :: post)
        (onPage n (p.after rid.slotNo) ++ Chain.entries post) := by
  obtain ⟨_, _, m, _, _, _, opened, _⟩ := here
  obtain ⟨_, low, high, _⟩ := heap.page_self
  unfold resetScan
  by_cases same : n = s.curPageNo
  · have number : n = m := same.trans opened.number
    rw [if_pos same]
    exact ⟨_, rfl, rfl, slot, pre, n, p, post, rfl,
      ⟨opened.file, opened.header, number ▸ opened.page, same.symm⟩, rfl⟩
  · rw [if_neg same, if_neg (by simp [opened.page]), Flat.run,
      Program.run_bind_of _ _ (Flat.run_unPinPage ..)]
    simp only [ne_eq, not_true_eq_false, if_false, restore]
    rw [opened.file, Program.run_bind_of _ _ (Flat.run_readPage there low high)]
    exact ⟨_, rfl, rfl, slot, pre, n, p, post, rfl, ⟨rfl, opened.header, rfl, rfl⟩, rfl⟩

/-! The pages written to. -/

theorem scanRest_owes (fuel : Nat) (owes : Owes s.toHeapFile pages) :
    (scanRest fuel s).Ensures unmarked pages (fun r pages' => Owes r.2.2.toHeapFile pages') := by
  induction fuel generalizing s pages with
  | zero => trivial
  | succ fuel ih =>
    simp only [scanRest, ensures_bind, ensures_ite, ensures_pure]
    exact (scanNext_owes fuel owes).mono fun r _ owes' => ⟨fun _ => owes', fun _ => ih owes'⟩

theorem walk_owes (fuel : Nat) (plan : List Bool) (owes : Owes s.toHeapFile pages) :
    (walk fuel plan s).Ensures unmarked pages (fun r pages' => Owes r.2.toHeapFile pages') := by
  induction plan generalizing s pages with
  | nil => exact owes
  | cons drop plan ih =>
    simp only [walk, ensures_bind, ensures_ite, ensures_pure]
    exact (scanNext_owes fuel owes).mono fun r _ owes' =>
      ⟨fun _ => (deleteRecord_owes owes').mono fun r _ owes'' => ih owes'', fun _ => ih owes'⟩

/-- The page that is left is released with its flag; the page that is read is
clean. -/
theorem resetScan_owes (mark : Mark) (owes : Owes s.toHeapFile pages) :
    (s.resetScan mark).Ensures unmarked pages
      (fun r pages' => r.1 = .ok → Owes r.2.toHeapFile pages') := by
  have restored (pages' : Finset (Name × Int))
    (header : OwesHeader s.filePtr s.headerPageNo s.hdrDirtyFlag pages') :
      (s.restore mark).Ensures unmarked pages'
        (fun r pages' => r.1 = .ok → Owes r.2.toHeapFile pages') := by
    simp only [restore, ensures_bind, ensures_ite, ensures_pure]
    exact fun status _ =>
      ⟨fun failed ok => absurd ok failed, fun _ _ => OwesHeader.owes header (.inr rfl)⟩
  simp only [resetScan, ensures_ite, ensures_bind, ensures_pure]
  refine ⟨fun _ _ => owes.curRec _, fun _ =>
    ⟨fun unset => restored pages (owes.header unset), fun _ status _ => ?_⟩⟩
  exact ⟨fun failed ok => absurd ok failed, fun _ => restored _ (owes.release status)⟩

/-- `markScan`, some calls of `scanNext` and `deleteRecord`, `resetScan`, and then
the rest of the scan, which is deleted at the end. The identifiers of the deleted
records and of those returned after the reset. -/
def rewind (plan : List Bool) (fuel : Nat) (s : HeapFileScan) :
    Prog (List RID × List RID × Status) := do
  let mark := s.markScan
  let (gone, s) ← walk fuel plan s
  let (status, s) ← s.resetScan mark
  if status ≠ .ok then .halt
  let (rids, status, s) ← scanRest fuel s
  s.delete
  return (gone, rids, status)

theorem rewind_settles (plan : List Bool) (fuel : Nat) (owes : Owes s.toHeapFile pages) :
    (rewind plan fuel s).Ensures unmarked pages (fun _ pages' => pages' = ∅) := by
  simp only [rewind, ensures_bind, ensures_ite, ensures_pure, ensures_halt, HeapFileScan.delete]
  refine (walk_owes fuel plan owes).mono fun r _ owes => ?_
  refine (resetScan_owes _ owes).mono fun r _ owes => ⟨fun _ => trivial, fun done => ?_⟩
  refine (scanRest_owes fuel (owes (not_not.mp done))).mono fun r _ owes => ?_
  exact (endScan_owes owes).mono fun r _ owes => delete_settles owes

/-- Wherever the scan is, the mark brings it back there: the records returned
after the reset are those that were ahead, less the deleted ones. The deletions
stay, and every page written to is released as dirty. -/
theorem resetScan_rewinds (heap : Heap f hdr chain) (there : st.files name = some f)
    (isOpen : st.openCnt name ≠ 0) (here : s.At name f chain todo) (owes : Owes s.toHeapFile pages)
    (plan : List Bool) :
    ∃ gone g hdr' chain', Returns (traced Flat.handle unmarked.next) (rewind plan · s) (st, pages)
        ((gone, ((todo.filter fun e => s.matchRec e.2).filter (·.1 ∉ gone)).map Prod.fst, .fileEof),
          (st.put name g).closed name, ∅) ∧
      Heap g hdr' chain' ∧ chain'.entries = chain.entries.filter (·.1 ∉ gone) := by
  obtain ⟨gone, t, g, hdr', chain', todo', walked, heap', at', filter, first, thinned⟩ :=
    walk_spec plan heap there here
  obtain ⟨slot, pre, n, p, post, rfl, opened, rfl⟩ := here
  have list := thinned.entries
  obtain ⟨pre', q, post', rfl, ahead⟩ := thinned.position
  have there' := Flat.files_put st name g
  obtain ⟨u, reset, filter', back⟩ := resetScan_spec heap' there' at' slot
  rw [ahead] at back
  obtain ⟨v, rest, file⟩ := scanRest_spec heap' there' ⟨_, back, rfl⟩
  refine ⟨gone, g, hdr', _, Returns.traced ?_ (fun fuel => rewind_settles plan fuel owes) ?_,
    heap', list⟩
  · intro c s g reply t answer
    cases c <;> first | trivial | cases answer
    rfl
  · refine .bind walked ?_
    rw [markScan, opened.number]
    refine .after reset ?_
    simp only [ne_eq, not_true_eq_false, if_false]
    refine .bind rest (.after (delete_spec file isOpen) (.of_run ?_))
    rw [matchRec_congr (filter'.trans filter), List.filter_comm]
    rfl

/-- A new scan of a file with two records, of which the first is deleted. -/
theorem resetScan_rewinds_deleted : ∃ (w : Sessions) (scan : ScanSession) (gone rids : List RID)
    (st : Flat), w.session = .scanning scan ∧ w.live ⟨2, 0⟩ = some [7, 7] ∧
      w.live ⟨2, 1⟩ = some [8] ∧
    Returns (traced Flat.handle unmarked.next) (rewind [true, false] · scan.scan) (w.storage, ∅)
      ((gone, rids, .fileEof), st, ∅) := by
  have reached : Transition.Reachable (Sessions.Created [97]) (Sessions.Step [97]) _ :=
    .next (a := .openScan none)
    (.next (a := .closeInsert) (.next (a := .insertRecord [8]) (.next (a := .insertRecord [7, 7])
      (.next (a := .openInsert) (.initial (s := ⟨_, .idle, fun _ => none⟩) ⟨.empty, rfl, rfl, rfl⟩)
        (.openInsert rfl))
      (.insertRecord (by decide) (by decide) rfl)) (.insertRecord (by decide) (by decide) rfl))
        (.closeInsert rfl))
    (.openScan rfl)
  obtain ⟨_, _, _, _, there, heap, _, isOpen, _, _, progress⟩ :=
    reached.invariant (fun _ => Sessions.Created.invariant) (fun _ _ _ inv step => step.invariant inv)
  obtain ⟨_, _, _, _, _, _, opened, _⟩ := progress.ahead
  have owes : Owes _ ∅ := ⟨.inr (opened.page.trans (congrArg some opened.number.symm)), by simp⟩
  obtain ⟨gone, _, _, _, returns, _⟩ :=
    resetScan_rewinds heap there isOpen progress.ahead owes [true, false]
  exact ⟨_, _, gone, _, _, rfl, rfl, rfl, returns⟩

end HeapFileScan
end Minirel
