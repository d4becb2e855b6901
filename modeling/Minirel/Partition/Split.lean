import Minirel.HeapFile.Table
import Minirel.Partition
import Minirel.Query.Relation
import Minirel.Query.Text

/-! What becomes of the records. The constructor opens its partition files but
does not create them: it needs all of them to exist. -/
namespace Minirel

namespace Partition
open Program
variable {st : Flat} {fileName name : Name} {P : Nat} {hashfcn : List UInt8 → Int}
    {records todo : List Entry}
  {contents : Nat → List Entry} {part : List HeapFile} {rel : HeapFileScan}

theorem partName_ne_nil (fileName : Name) (p : Nat) : partName fileName p ≠ [] := by simp [partName]

theorem partName_ne (fileName : Name) (p : Nat) : partName fileName p ≠ fileName := by
  intro same
  have longer := congrArg List.length same
  simp only [partName, List.length_append, List.length_singleton] at longer
  omega

theorem partName_injective (fileName : Name) : Function.Injective (partName fileName) := by
  intro p q same
  have digits : decimal p = decimal q := by simpa [partName] using same
  have values := congrArg leadingDigits digits
  rw [leadingDigits_decimal, leadingDigits_decimal] at values
  exact_mod_cast values

/-! The partition files are opened. -/

/-- An inserter on each partition file, all of which exist. -/
theorem openParts_spec {names : List Name} (named : ∀ name ∈ names, name ≠ [])
    (tables : ∀ name ∈ names, Table st name id []) :
    ∃ part st', Flat.run (openParts names) st = some (.ok part, st') ∧ st'.files = st.files ∧
      (∀ name, st.openCnt name ≤ st'.openCnt name) ∧
      List.Forall₂ (fun name h => Inserter h st' name [] ∧ st'.openCnt name ≠ 0) names part := by
  induction names generalizing st with
  | nil => exact ⟨[], st, rfl, rfl, fun _ => le_rfl, .nil⟩
  | cons name names ih =>
    rw [List.forall_mem_cons] at named tables
    obtain ⟨h, new, inserter⟩ := tables.1.openInserter named.1
    obtain ⟨part, st', rest, files, more, all⟩ := @ih (st.opened name) named.2 fun other member =>
      (tables.2 other member).congr rfl
    refine ⟨h :: part, st', ?_, files, fun other => ?_,
      .cons ⟨inserter.congr (congrFun files name), ?_⟩ all⟩
    · rw [openParts, Flat.run, run_bind_of _ _ new]
      simp only
      rw [run_bind_of _ _ rest]
      rfl
    · refine le_trans ?_ (more other)
      by_cases same : other = name
      · simp [same]
      · simp [Flat.opened, same]
    · have counted := more name
      simp only [Flat.openCnt_opened] at counted
      omega

/-- Without one of the files the constructor fails. -/
theorem openParts_absent {names : List Name} (named : ∀ name ∈ names, name ≠ [])
    (distinct : names.Nodup)
    (each : ∀ name ∈ names, st.files name = none ∧ st.openCnt name = 0 ∨ Table st name id [])
    (missing : ∃ name ∈ names, st.files name = none) :
    ∃ st', Flat.run (openParts names) st = some (.error .unixErr, st') := by
  induction names generalizing st with
  | nil => simp at missing
  | cons name names ih =>
    rw [List.forall_mem_cons] at named each
    rw [List.nodup_cons] at distinct
    rcases each.1 with ⟨absent, unopened⟩ | table
    · refine ⟨st, ?_⟩
      rw [openParts, Flat.run, run_bind_of _ _ (InsertFileScan.new_absent absent unopened named.1)]
      rfl
    · obtain ⟨h, new, -⟩ := table.openInserter named.1
      have missing' : ∃ other ∈ names, (st.opened name).files other = none := by
        obtain ⟨other, member, absent⟩ := missing
        rcases List.mem_cons.mp member with rfl | member
        · obtain ⟨f, _, _, there, _⟩ := table
          cases there.symm.trans absent
        · exact ⟨other, member, absent⟩
      have each' : ∀ other ∈ names, (st.opened name).files other = none ∧
        (st.opened name).openCnt other = 0 ∨
          Table (st.opened name) other id [] := by
        intro other member
        have apart : other ≠ name := fun same => distinct.1 (same ▸ member)
        rcases each.2 other member with ⟨absent, unopened⟩ | table
        · exact .inl ⟨absent, by simpa [Flat.opened, apart] using unopened⟩
        · exact .inr (table.congr rfl)
      obtain ⟨st', rest⟩ := ih named.2 distinct.2 each' missing'
      refine ⟨st', ?_⟩
      rw [openParts, Flat.run, run_bind_of _ _ new]
      simp only
      rw [run_bind_of _ _ rest]
      rfl

/-! The records are distributed. -/

structure Holds (fileName : Name) (P : Nat) (part : List HeapFile) (st : Flat)
    (contents : Nat → List Entry) : Prop where
  count : part.length = P
  inserter : ∀ {p h}, part[p]? = some h → Inserter h st (partName fileName p) (contents p)
  isOpen : ∀ p < P, st.openCnt (partName fileName p) ≠ 0

theorem Holds.insert (holds : Holds fileName P part st contents) {p : Nat} (inside : p < P)
    {bytes : List UInt8} (nonempty : 0 < bytes.length) (small : bytes.length ≤ 1000) :
    ∃ h rid h' g records, part[p]? = some h ∧
      Flat.run (InsertFileScan.insertRecord h (.ofBytes bytes)) st =
        some ((.ok rid, h'), st.put (partName fileName p) g) ∧
      Holds fileName P (part.set p h') (st.put (partName fileName p) g)
        (Function.update contents p records) ∧
      Gained (contents p) records [bytes] := by
  have bound : p < part.length := holds.count.symm ▸ inside
  have here : part[p]? = some part[p] := List.getElem?_eq_getElem bound
  obtain ⟨rid, h', g, front, back, insert, split, inserter⟩ :=
    (holds.inserter here).insert nonempty small
  have gained : Gained (contents p) (front ++ (rid, bytes) :: back) [bytes] := by
    rw [split]
    exact .one rid bytes
  refine ⟨_, rid, h', g, _, here, insert, ⟨by simpa using holds.count, ?_, holds.isOpen⟩, gained⟩
  intro q h there
  by_cases same : q = p
  · subst same
    rw [List.getElem?_set_self bound, Option.some.injEq] at there
    rw [Function.update_self, ← there]
    exact inserter
  · rw [List.getElem?_set_ne (Ne.symm same)] at there
    rw [Function.update_of_ne same]
    exact (holds.inserter there).congr
      (Flat.files_put_of_ne g fun names => same (partName_injective fileName names))

/-- Each partition gains the records that hash to it, in some order. -/
theorem distribute_spec (cursor : Cursor rel st name id records todo)
    (holds : Holds fileName P part st contents) (apart : ∀ p < P, name ≠ partName fileName p)
    (range : ∀ e ∈ todo, 0 ≤ hashfcn e.2 ∧ hashfcn e.2 < P)
    (sized : ∀ e ∈ todo, 0 < e.2.length ∧ e.2.length ≤ 1000) :
    ∃ rel' part' st' contents',
      Returns Flat.handle (distribute hashfcn · rel part) st ((.ok, rel', part'), st') ∧
        Holds fileName P part' st' contents' ∧
      ∀ p, Gained (contents p) (contents' p)
        ((todo.filter fun e => hashfcn e.2 = p).map Prod.snd) := by
  induction todo generalizing rel part st contents with
  | nil =>
    obtain ⟨rel', scan, -⟩ := cursor.eof
    exact ⟨rel', part, st, contents, .round (.bind scan (.of_run rfl)) fun _ => rfl, holds, fun p =>
      .refl _⟩
  | cons e todo ih =>
    rw [List.forall_mem_cons] at range sized
    obtain ⟨rel', scan, on⟩ := cursor.next
    obtain ⟨p, hash⟩ : ∃ p : Nat, hashfcn e.2 = p :=
      ⟨(hashfcn e.2).toNat, (Int.toNat_of_nonneg range.1.1).symm⟩
    have inside : p < P := by
      have high := range.1.2
      omega
    obtain ⟨h, rid, h', g, filled, here, insert, holds', gained⟩ :=
      holds.insert inside sized.1.1 sized.1.2
    have cursor' := on.cursor.congr (Flat.files_put_of_ne g (apart p inside))
    obtain ⟨rel'', part', st', contents', rest, final, all⟩ := ih cursor' holds' range.2 sized.2
    refine ⟨rel'', part', st', contents', ?_, final, fun q => ?_⟩
    · refine .round (.bind scan (.after on.getRecord ?_)) fun _ => rfl
      have nonneg : ¬(p : Int) < 0 := by omega
      simp only [id, hash, nonneg, if_false, Int.toNat_natCast, here]
      exact .after insert rest
    · have more := all q
      by_cases same : q = p
      · subst same
        rw [Function.update_self] at more
        rw [List.filter_cons_of_pos (by simpa using hash)]
        exact gained.trans more
      · rw [Function.update_of_ne same] at more
        rw [List.filter_cons_of_neg (by rw [hash]; simpa using Ne.symm same)]
        exact more

/-! The partition files are closed. -/

theorem closeParts_spec (isOpen : ∀ h ∈ part, st.openCnt h.filePtr ≠ 0)
    (distinct : (part.map HeapFile.filePtr).Nodup) :
    ∃ st', Flat.run (closeParts part) st = some ((), st') ∧ st'.files = st.files := by
  induction part generalizing st with
  | nil => exact ⟨st, rfl, rfl⟩
  | cons h part ih =>
    rw [List.forall_mem_cons] at isOpen
    rw [List.map_cons, List.nodup_cons] at distinct
    have isOpen' : ∀ other ∈ part, (st.closed h.filePtr).openCnt other.filePtr ≠ 0 := by
      intro other member
      have apart : other.filePtr ≠ h.filePtr := fun same =>
        distinct.1 (same ▸ List.mem_map_of_mem member)
      simpa [Flat.closed, apart] using isOpen.2 other member
    obtain ⟨st', rest, files⟩ := ih isOpen' distinct.2
    refine ⟨st', ?_, files⟩
    rw [closeParts, Flat.run, run_bind_of _ _ (InsertFileScan.delete_spec rfl isOpen.1)]
    exact rest

/-! The constructor. -/

theorem Holds.files (holds : Holds fileName P part st contents) :
    part.map HeapFile.filePtr = (List.range P).map (partName fileName) := by
  refine List.ext_getElem (by simp [holds.count]) fun p inside _ => ?_
  have bound : p < part.length := by simpa using inside
  simpa using (holds.inserter (List.getElem?_eq_getElem bound)).file

theorem Holds.close (holds : Holds fileName P part st contents) :
    ∃ st', Flat.run (closeParts part) st = some ((), st') ∧ st'.files = st.files := by
  refine closeParts_spec (fun h member => ?_) ?_
  · obtain ⟨p, inside, rfl⟩ := List.mem_iff_getElem.mp member
    rw [(holds.inserter (List.getElem?_eq_getElem inside)).file]
    exact holds.isOpen p (holds.count ▸ inside)
  · rw [holds.files]
    exact List.nodup_range.map (partName_injective fileName)

theorem holds_of_opened
    (all : List.Forall₂ (fun name h => Inserter h st name [] ∧ st.openCnt name ≠ 0)
    ((List.range P).map (partName fileName)) part) : Holds fileName P part st fun _ => [] := by
  have count : P = part.length := by simpa using all.length_eq
  rw [List.forall₂_map_left_iff, List.forall₂_iff_get] at all
  have each (p : Nat) (inside : p < P) :
    Inserter (part.get ⟨p, count ▸ inside⟩) st (partName fileName p) [] ∧
      st.openCnt (partName fileName p) ≠ 0 := by
    simpa using all.2 p (by simpa using inside) (count ▸ inside)
  refine ⟨count.symm, fun {p h} there => ?_, fun p inside => (each p inside).2⟩
  obtain ⟨inside, rfl⟩ := List.getElem?_eq_some_iff.mp there
  exact (each p (count ▸ inside)).1

/-- The constructor succeeds, and each partition file holds the records that hash
to it. -/
def Splits (hashfcn : List UInt8 → Int) (rel : HeapFileScan) (fileName : Name) (P : Nat)
    (records : List Entry) (st : Flat) : Prop :=
  ∃ rel' st', Returns Flat.handle (new hashfcn · rel fileName P) st ((.ok, rel'), st') ∧
    ∃ contents : Nat → List Entry, (∀ p < P, Table st' (partName fileName p) id (contents p) ∧
      ∀ e ∈ contents p, hashfcn e.2 = p) ∧
      (((List.range P).flatMap contents).map Prod.snd).Perm (records.map Prod.snd)

/-- The constructor is given a scan at the start of its file, whatever its filter,
and a hash function into the range. Of the partition files each is an empty heap
file or does not exist. -/
structure Given (hashfcn : List UInt8 → Int) (rel : HeapFileScan) (fileName : Name) (P : Nat)
    (name : Name) (records : List Entry) (st : Flat) : Prop where
  cursor : Cursor { rel with filter := none } st name id records records
  range : ∀ e ∈ records, 0 ≤ hashfcn e.2 ∧ hashfcn e.2 < P
  apart : ∀ p < P, name ≠ partName fileName p
  files : ∀ p < P, st.files (partName fileName p) = none ∧ st.openCnt (partName fileName p) = 0 ∨
    Table st (partName fileName p) id []

theorem partNames_named : ∀ name ∈ (List.range P).map (partName fileName), name ≠ [] :=
  List.forall_mem_map.mpr fun p _ => partName_ne_nil fileName p

theorem splits_of_files (given : Given hashfcn rel fileName P name records st)
    (files : ∀ p < P, Table st (partName fileName p) id []) :
    Splits hashfcn rel fileName P records st := by
  have tables : ∀ name ∈ (List.range P).map (partName fileName), Table st name id [] :=
    List.forall_mem_map.mpr fun p member => files p (List.mem_range.mp member)
  obtain ⟨part, st₁, opened, same, -, all⟩ := openParts_spec partNames_named tables
  have cursor := given.cursor.congr (congrFun same name)
  obtain ⟨rel₁, part', st₂, contents, loop, holds, gained⟩ :=
    distribute_spec cursor (holds_of_opened all) given.apart given.range given.cursor.table.sized
  obtain ⟨st₃, closed, kept⟩ := holds.close
  obtain ⟨rel₂, ended, -⟩ := HeapFileScan.endScan_spec rel₁ st₃
  have bytes (p : Nat) :
      ((contents p).map Prod.snd).Perm ((records.filter fun e => hashfcn e.2 = p).map Prod.snd) := by
    simpa using (gained p).contents
  refine ⟨rel₂, st₃, ?_, contents, fun p inside => ⟨?_, fun e member => ?_⟩, ?_⟩
  · refine .after opened ?_
    simp only [HeapFileScan.startScan, ne_eq, not_true_eq_false, if_false]
    exact .bind loop (.after closed (.of_run ended))
  · have bound : p < part'.length := holds.count.symm ▸ inside
    exact (holds.inserter (List.getElem?_eq_getElem bound)).table.congr (congrFun kept _)
  · obtain ⟨e', member', contents'⟩ :=
      List.mem_map.mp ((bytes p).mem_iff.mp (List.mem_map_of_mem member))
    simpa [contents'] using (List.mem_filter.mp member').2
  · rw [List.map_flatMap]
    have each : ((List.range P).flatMap fun p => (contents p).map Prod.snd).Perm
        ((List.range P).flatMap fun p : Nat =>
          (records.filter fun e => hashfcn e.2 = p).map Prod.snd) :=
      List.Perm.flatMap_left _ fun p _ => bytes p
    have listed : ∀ e ∈ records, hashfcn e.2 ∈ (List.range P).map Nat.cast := by
      intro e member
      obtain ⟨low, high⟩ := given.range e member
      exact List.mem_map.mpr ⟨(hashfcn e.2).toNat, by simp; omega, by omega⟩
    have whole := (List.flatMap_filter_perm (List.nodup_range.map Nat.cast_injective) listed).map
      Prod.snd
    rw [List.flatMap_map, List.map_flatMap] at whole
    exact each.trans whole

theorem not_splits (given : Given hashfcn rel fileName P name records st) {p : Nat} (inside : p < P)
    (absent : st.files (partName fileName p) = none) :
    ¬ Splits hashfcn rel fileName P records st := by
  rintro ⟨rel', st', returns, -⟩
  obtain ⟨st'', failed⟩ :=
    openParts_absent partNames_named (List.nodup_range.map (partName_injective fileName))
    (List.forall_mem_map.mpr fun p member => given.files p (List.mem_range.mp member))
    ⟨_, List.mem_map_of_mem (List.mem_range.mpr inside), absent⟩
  have fails : Returns Flat.handle (new hashfcn · rel fileName P) st ((.unixErr, rel), st'') :=
    .after failed (.of_run rfl)
  cases returns.unique fails

theorem exists_given (st : Flat) (contents : List (List UInt8))
    (fits : ∀ bytes ∈ contents, 0 < bytes.length ∧ bytes.length ≤ 1000)
    (range : ∀ bytes ∈ contents, 0 ≤ hashfcn bytes ∧ hashfcn bytes < P)
    (files : ∀ p < P, st.files (partName (chars "a") p) = none ∧
      st.openCnt (partName (chars "a") p) = 0 ∨ Table st (partName (chars "a") p) id []) :
    ∃ rel records st', records.map Prod.snd = contents ∧
      (∀ p, st'.files (partName (chars "a") p) = st.files (partName (chars "a") p)) ∧
      Given hashfcn rel (chars "a") P (chars "a") records st' := by
  obtain ⟨g, records, rfl, table⟩ := exists_table st (chars "a") contents (by decide) fits
  obtain ⟨rel, -, fresh, cursor⟩ := table.open (by decide)
  have kept (p : Nat) : (st.put (chars "a") g).files (partName (chars "a") p) =
      st.files (partName (chars "a") p) :=
    Flat.files_put_of_ne g (partName_ne _ p)
  refine ⟨rel, records, _, rfl, kept, ?_, fun e member => range e.2 (List.mem_map_of_mem member),
    fun p _ => (partName_ne _ p).symm, fun p inside => ?_⟩
  · rw [← fresh]
    exact cursor
  · refine (files p inside).imp (fun absent => ⟨(kept p).trans absent.1, ?_⟩) fun table =>
      table.congr (kept p)
    simpa [Flat.opened, partName_ne] using absent.2

/-- The records are split if and only if all partition files exist before. -/
theorem splits_iff (given : Given hashfcn rel fileName P name records st) :
    Splits hashfcn rel fileName P records st ↔ ∀ p < P, st.files (partName fileName p) ≠ none := by
  constructor
  · exact fun splits p inside absent => not_splits given inside absent splits
  · intro present
    exact splits_of_files given fun p inside => (given.files p inside).resolve_left fun absent =>
      present p inside absent.1

/-- Two records go to two partitions, by their lengths. -/
theorem splits_iff_two : ∃ st rel records, records.map Prod.snd = [[7], [8, 8]] ∧
    (∀ p < 2, st.files (partName (chars "a") p) ≠ none) ∧
    Splits (fun bytes => bytes.length - 1) rel (chars "a") 2 records st := by
  let first := Flat.empty.put (partName (chars "a") 0) (newFile .empty)
  have empty : ∀ p < 2, Table (first.put (partName (chars "a") 1) (newFile first))
    (partName (chars "a") p)
      (id : List UInt8 → _) [] := by
    intro p inside
    obtain rfl | rfl : p = 0 ∨ p = 1 := by omega
    · exact (newFile_table ..).congr (Flat.files_put_of_ne _ (by decide))
    · exact newFile_table ..
  obtain ⟨rel, records, st, same, kept, given⟩ :=
    @exists_given 2 (fun bytes => bytes.length - 1) _ [[7], [8, 8]]
    (by decide) (by decide) fun p inside => .inr (empty p inside)
  have present : ∀ p < 2, st.files (partName (chars "a") p) ≠ none := by
    intro p inside
    obtain ⟨f, _, _, there, _⟩ := empty p inside
    rw [kept, there]
    exact Option.some_ne_none f
  exact ⟨st, rel, records, same, present, (splits_iff given).mpr present⟩

/-- A scan over one record, without any partition file. -/
theorem one_record_not_split : ∃ st rel rid, Given (fun _ => 0) rel (chars "a") 1 (chars "a")
    [(rid, [7])] st ∧ (∀ p < 1, st.files (partName (chars "a") p) = none) ∧
      ¬ Splits (fun _ => 0) rel (chars "a") 1 [(rid, [7])] st := by
  obtain ⟨rel, records, st, same, kept, given⟩ := @exists_given 1 (fun _ => 0) .empty [[7]] (by decide)
    (by decide) fun _ _ => .inl ⟨rfl, rfl⟩
  obtain ⟨⟨rid, _⟩, rfl, rfl⟩ := List.map_eq_singleton_iff.mp same
  exact ⟨st, rel, rid, given, fun p _ => kept p, not_splits given Nat.one_pos (kept 0)⟩

end Partition
end Minirel
