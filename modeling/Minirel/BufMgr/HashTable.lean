import Minirel.BufMgr
import Minirel.Lib.Buckets

/-! The hash table of the buffer manager (bufHash.C) for any table size, with its
chains as they are linked. It refines a finite partial map, and at the size that
the buffer manager chooses it is the table of the model of the buffer manager. -/
namespace Minirel
open Function

/-- The array of chains; an index outside of `0 .. HTSIZE-1` is outside of the
array. -/
structure BufBuckets where
  htSize : Nat
  ht : Int → List ((FilePtr × Int) × Int)

namespace BufBuckets
variable {size bufs : Nat} {buckets : BufBuckets}

def new (size : Nat) : BufBuckets := ⟨size, fun _ => []⟩

/-- The remainder of the address of the file object and the page number. -/
def hash (size : Nat) (key : FilePtr × Int) : Int := (key.1 + key.2).tmod size

def link (buckets : BufBuckets) (index : Int) (chain : List ((FilePtr × Int) × Int)) : BufBuckets :=
  { buckets with ht := update buckets.ht index chain }

def insert (buckets : BufBuckets) (file : FilePtr) (pageNo frameNo : Int) : Status × BufBuckets :=
  let index := hash buckets.htSize (file, pageNo)
  match Buckets.find (file, pageNo) (buckets.ht index) with
  | some _ => (.hashTblError, buckets)
  | none => (.ok, buckets.link index (((file, pageNo), frameNo) :: buckets.ht index))

def lookup (buckets : BufBuckets) (file : FilePtr) (pageNo : Int) : Except Status Int :=
  match Buckets.find (file, pageNo) (buckets.ht (hash buckets.htSize (file, pageNo))) with
  | some frameNo => .ok frameNo
  | none => .error .hashNotFound

def remove (buckets : BufBuckets) (file : FilePtr) (pageNo : Int) : Status × BufBuckets :=
  let index := hash buckets.htSize (file, pageNo)
  match Buckets.unlink (file, pageNo) [] (buckets.ht index) with
  | some chain => (.ok, buckets.link index chain)
  | none => (.hashTblError, buckets)

theorem hash_bounds (positive : 0 < size) {key : FilePtr × Int} (file : 0 ≤ key.1)
    (page : 0 ≤ key.2) :
    0 ≤ hash size key ∧ hash size key < size :=
  ⟨Int.tmod_nonneg _ (Int.add_nonneg file page), Int.tmod_lt_of_pos _ (by omega)⟩

end BufBuckets

inductive HashCall
  | insert (file : FilePtr) (pageNo frameNo : Int)
  | lookup (file : FilePtr) (pageNo : Int)
  | remove (file : FilePtr) (pageNo : Int)
deriving DecidableEq, Repr

def HashCall.key : HashCall → FilePtr × Int
  | insert file pageNo _ => (file, pageNo)
  | lookup file pageNo => (file, pageNo)
  | remove file pageNo => (file, pageNo)

inductive HashAnswer
  | status (status : Status)
  | frame (frameNo : Int)
deriving DecidableEq, Repr

namespace BufBuckets

def apply (buckets : BufBuckets) : HashCall → HashAnswer × BufBuckets
  | .insert file pageNo frameNo =>
    let (status, buckets') := buckets.insert file pageNo frameNo
    (.status status, buckets')
  | .lookup file pageNo =>
    match buckets.lookup file pageNo with
    | .ok frameNo => (.frame frameNo, buckets)
    | .error status => (.status status, buckets)
  | .remove file pageNo =>
    let (status, buckets') := buckets.remove file pageNo
    (.status status, buckets')

def run (buckets : BufBuckets) : List HashCall → List HashAnswer × BufBuckets
  | [] => ([], buckets)
  | call :: calls =>
    let (answer, buckets') := buckets.apply call
    let (answers, last) := buckets'.run calls
    (answer :: answers, last)

end BufBuckets

/-- What the table is for: the frame of each page in the pool. -/
abbrev FrameMap := FilePtr × Int → Option Int

namespace FrameMap

def apply (frames : FrameMap) : HashCall → HashAnswer × FrameMap
  | .insert file pageNo frameNo =>
    if frames (file, pageNo) = none then (.status .ok, update frames (file, pageNo) (some frameNo))
    else (.status .hashTblError, frames)
  | .lookup file pageNo =>
    match frames (file, pageNo) with
    | some frameNo => (.frame frameNo, frames)
    | none => (.status .hashNotFound, frames)
  | .remove file pageNo =>
    if frames (file, pageNo) = none then (.status .hashTblError, frames)
    else (.status .ok, update frames (file, pageNo) none)

def run (frames : FrameMap) : List HashCall → List HashAnswer × FrameMap
  | [] => ([], frames)
  | call :: calls =>
    let (answer, frames') := frames.apply call
    let (answers, last) := frames'.run calls
    (answer :: answers, last)

theorem apply_of_ne (frames : FrameMap) {call : HashCall} {key : FilePtr × Int}
    (apart : key ≠ call.key) :
    (frames.apply call).2 key = frames key := by
  cases call with
  | insert file pageNo frameNo =>
    simp only [apply]
    split
    · exact update_of_ne apart _ _
    · rfl
  | lookup file pageNo =>
    simp only [apply]
    split <;> rfl
  | remove file pageNo =>
    simp only [apply]
    split
    · rfl
    · exact update_of_ne apart _ _

end FrameMap

namespace BufBuckets
variable {V : Type} {frameNo : V → Int} {size : Nat} {buckets : BufBuckets}
  {table table' : ChainedTable (FilePtr × Int) V (hash size)} {file : FilePtr} {pageNo : Int}
  {value : V}

/-- The chains are those of the table, with the frame numbers of its values. -/
structure Represents (frameNo : V → Int) (buckets : BufBuckets)
    (table : ChainedTable (FilePtr × Int) V (hash size)) :
    Prop where
  sized : buckets.htSize = size
  chains : ∀ i, buckets.ht i = (table.chain i).map (Prod.map id frameNo)

theorem new_represents (size : Nat) (frameNo : V → Int) :
    (new size).Represents frameNo (.empty : ChainedTable (FilePtr × Int) V (hash size)) :=
  ⟨rfl, fun _ => rfl⟩

namespace Represents

theorem find (represents : buckets.Represents frameNo table) :
    Buckets.find (file, pageNo) (buckets.ht (hash buckets.htSize (file, pageNo))) =
      (table.lookup (file, pageNo)).map frameNo := by
  rw [represents.sized, represents.chains, Buckets.find_map, Buckets.find_eq_lookup,
    ChainedTable.lookup]

theorem link {chain : List ((FilePtr × Int) × V)} (represents : buckets.Represents frameNo table)
    (changed : table'.chain = update table.chain (hash size (file, pageNo)) chain) :
    (buckets.link (hash buckets.htSize (file, pageNo)) (chain.map (Prod.map id frameNo))).Represents
      frameNo table' := by
  refine ⟨represents.sized, fun i => ?_⟩
  simp only [BufBuckets.link, changed, represents.sized, update_apply]
  split
  · rfl
  · exact represents.chains i

theorem insert (represents : buckets.Represents frameNo table)
    (inserted : table.insert (file, pageNo) value = some table') :
    ∃ buckets', buckets.insert file pageNo (frameNo value) = (.ok, buckets') ∧
      buckets'.Represents frameNo table' := by
  refine ⟨_, ?_, represents.link (Buckets.chain_insert inserted)⟩
  rw [BufBuckets.insert, represents.find, Buckets.absent_of_insert inserted, represents.sized,
    List.map_cons, ← represents.chains]
  rfl

theorem insert_refused (represents : buckets.Represents frameNo table)
    (refused : table.insert (file, pageNo) value = none) :
    buckets.insert file pageNo (frameNo value) = (.hashTblError, buckets) := by
  obtain ⟨other, present⟩ := Option.ne_none_iff_exists'.mp (ChainedTable.insert_eq_none.mp refused)
  rw [BufBuckets.insert, represents.find, present]
  rfl

theorem lookup (represents : buckets.Represents frameNo table) :
    buckets.lookup file pageNo = ((table.lookup (file, pageNo)).map frameNo).elim
      (.error .hashNotFound) .ok := by
  rw [BufBuckets.lookup, represents.find]
  cases table.lookup (file, pageNo) <;> rfl

theorem unlink (represents : buckets.Represents frameNo table) :
    Buckets.unlink (file, pageNo) [] (buckets.ht (hash buckets.htSize (file, pageNo))) =
      (Buckets.unlink (file, pageNo) [] (table.chain (hash size (file, pageNo)))).map
        (List.map (Prod.map id frameNo)) := by
  rw [represents.sized, represents.chains, ← Buckets.unlink_map]
  rfl

theorem remove (represents : buckets.Represents frameNo table)
    (removed : table.remove (file, pageNo) = some table') :
    ∃ buckets', buckets.remove file pageNo = (.ok, buckets') ∧
      buckets'.Represents frameNo table' := by
  refine ⟨_, ?_, represents.link (Buckets.chain_remove removed)⟩
  rw [BufBuckets.remove, represents.unlink, Buckets.unlink_eq_some (Buckets.present_of_remove removed)]
  rfl

theorem remove_refused (represents : buckets.Represents frameNo table)
    (refused : table.remove (file, pageNo) = none) :
    buckets.remove file pageNo = (.hashTblError, buckets) := by
  rw [BufBuckets.remove, represents.unlink,
    Buckets.unlink_eq_none (ChainedTable.remove_eq_none.mp refused)]
  rfl

end Represents

/-- One call: the answer and the new frames are those of the map. -/
theorem apply_refines {table : ChainedTable (FilePtr × Int) Int (hash size)}
    (represents : buckets.Represents id table) (call : HashCall) :
    ∃ table' : ChainedTable (FilePtr × Int) Int (hash size),
      (buckets.apply call).2.Represents id table' ∧
        (buckets.apply call).1 = (FrameMap.apply table.lookup call).1 ∧
      table'.lookup = (FrameMap.apply table.lookup call).2 := by
  cases call with
  | insert file pageNo frameNo =>
    cases inserted : table.insert (file, pageNo) frameNo with
    | none =>
      have refused := represents.insert_refused inserted
      rw [id_eq] at refused
      rw [apply, refused, FrameMap.apply, if_neg (ChainedTable.insert_eq_none.mp inserted)]
      exact ⟨table, represents, rfl, rfl⟩
    | some table' =>
      obtain ⟨buckets', done, represents'⟩ := represents.insert inserted
      rw [id_eq] at done
      rw [apply, done, FrameMap.apply, if_pos (Buckets.absent_of_insert inserted)]
      refine ⟨table', represents', rfl, funext fun key => ?_⟩
      rw [ChainedTable.lookup_insert inserted]
      exact (update_apply ..).symm
  | lookup file pageNo =>
    refine ⟨table, ?_⟩
    rw [apply, represents.lookup, FrameMap.apply]
    cases table.lookup (file, pageNo) <;> exact ⟨represents, rfl, rfl⟩
  | remove file pageNo =>
    cases removed : table.remove (file, pageNo) with
    | none =>
      rw [apply, represents.remove_refused removed, FrameMap.apply,
        if_pos (ChainedTable.remove_eq_none.mp removed)]
      exact ⟨table, represents, rfl, rfl⟩
    | some table' =>
      obtain ⟨buckets', done, represents'⟩ := represents.remove removed
      rw [apply, done, FrameMap.apply, if_neg (Buckets.present_of_remove removed)]
      refine ⟨table', represents', rfl, funext fun key => ?_⟩
      rw [ChainedTable.lookup_remove removed]
      exact (update_apply ..).symm

theorem run_represents {table : ChainedTable (FilePtr × Int) Int (hash size)}
    (represents : buckets.Represents id table) (calls : List HashCall) :
    ∃ table' : ChainedTable (FilePtr × Int) Int (hash size),
      (buckets.run calls).2.Represents id table' ∧
        (buckets.run calls).1 = (FrameMap.run table.lookup calls).1 ∧
      table'.lookup = (FrameMap.run table.lookup calls).2 := by
  induction calls generalizing buckets table with
  | nil => exact ⟨table, represents, rfl, rfl⟩
  | cons call calls ih =>
    obtain ⟨table', represents', answer, frames⟩ := apply_refines represents call
    obtain ⟨last, represents'', answers, frames'⟩ := ih represents'
    rw [frames] at answers frames'
    refine ⟨last, represents'', ?_, frames'⟩
    simp only [run, FrameMap.run]
    rw [answer, answers]

def frameOf (buckets : BufBuckets) (key : FilePtr × Int) : Option Int :=
  Buckets.find key (buckets.ht (hash buckets.htSize key))

theorem apply_refused {call : HashCall} (refused : (buckets.apply call).1 = .status .hashTblError) :
    (buckets.apply call).2 = buckets := by
  cases call with
  | insert file pageNo frameNo =>
    simp only [apply, insert] at refused ⊢
    split at refused <;> simp_all
  | lookup file pageNo =>
    simp only [apply]
    split <;> rfl
  | remove file pageNo =>
    simp only [apply, remove] at refused ⊢
    split at refused <;> simp_all

/-- For every table size and every sequence of calls the answers are those of a
partial map that is empty at first. In each table that is reached the frames are
those of the map, no chain has a key twice, a refused call leaves the table as it
is, and a call for one key does not affect any other. No index is outside of the
array. -/
theorem run_refines (positive : 0 < size) (calls : List HashCall)
    (natural : ∀ call ∈ calls, 0 ≤ call.key.1 ∧ 0 ≤ call.key.2) :
    let buckets := ((new size).run calls).2
    ((new size).run calls).1 = (FrameMap.run (fun _ => none) calls).1 ∧
      buckets.frameOf = (FrameMap.run (fun _ => none) calls).2 ∧
      (∀ i, ((buckets.ht i).map Prod.fst).Nodup) ∧
      (∀ call, (buckets.apply call).1 = .status .hashTblError → (buckets.apply call).2 = buckets) ∧
      (∀ call key, key ≠ call.key → (buckets.apply call).2.frameOf key = buckets.frameOf key) ∧
      ∀ call ∈ calls, 0 ≤ hash size call.key ∧ hash size call.key < size := by
  obtain ⟨table, represents, answers, frames⟩ := run_represents (new_represents size id) calls
  have frameOf {buckets : BufBuckets} {table : ChainedTable (FilePtr × Int) Int (hash size)}
      (represents : buckets.Represents id table) : buckets.frameOf = table.lookup := by
    funext key
    exact represents.find.trans Option.map_id'
  refine ⟨answers, (frameOf represents).trans frames, fun i => ?_, fun _ => apply_refused,
    fun call key apart => ?_,
    fun call member => hash_bounds positive (natural call member).1 (natural call member).2⟩
  · rw [represents.chains, Prod.map_id, List.map_id]
    exact table.distinct i
  · obtain ⟨table', represents', -, frames'⟩ := apply_refines represents call
    rw [frameOf represents', frames', frameOf represents, FrameMap.apply_of_ne _ apart]

/-- Three keys in the one chain; the middle one is removed. -/
theorem run_refines_collision :
    ((new 1).run [.insert 8 1 0, .insert 8 2 1, .insert 8 3 2, .remove 8 2, .lookup 8 1,
      .lookup 8 2, .remove 8 2]).1 =
        [.status .ok, .status .ok, .status .ok, .status .ok, .frame 0, .status .hashNotFound,
          .status .hashTblError] :=
  (run_refines Nat.one_pos _ (by decide)).1.trans (by decide)

end BufBuckets
end Minirel
