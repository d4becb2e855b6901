import Minirel.DB
import Minirel.Lib.Buckets
import Minirel.Lib.Transition

/-! The open-file table over whole runs. Membership is in the table and the count
in the `File` object; both follow from how often the name was opened and closed. -/
namespace Minirel
open Function

/-- What a run has opened, by name and object, and closed. -/
inductive OpenEvent
  | opened (fileName : Name) (file : FilePtr)
  | closed (fileName : Name)
deriving DecidableEq, Repr

namespace OpenEvent

def opens (name : Name) : OpenEvent → Bool
  | opened fileName _ => fileName = name
  | closed _ => false

def closes (name : Name) : OpenEvent → Bool
  | opened _ _ => false
  | closed fileName => fileName = name

def object (name : Name) : OpenEvent → Option FilePtr
  | opened fileName file => if fileName = name then some file else none
  | closed _ => none

end OpenEvent

/-- The database object, the UNIX files, and the history with the last event
first. -/
structure FileSession (bufs : Nat) (P : Type) [PageImage P] where
  db : DB bufs P
  directory : Paths
  history : List OpenEvent

/-- The calls. `closeFile` comes with the transfers that fail while the pages of
the file are flushed and with whether the UNIX `close` succeeds. -/
inductive DBCall (P : Type)
  | createFile (fileName : Name) (creation : CreateOutcome)
  | destroyFile (fileName : Name)
  | openFile (fileName : Name) (address : FilePtr)
  | closeFile (file : FilePtr) (fault : Faults P) (closes : Bool)

namespace DB
variable {bufs : Nat} {P : Type} [PageImage P] {db : DB bufs P} {name : Name}
    {file address : FilePtr} {f : File}

theorem openFile_listed (opens : Bool) (address : FilePtr) (named : name ≠ [])
    (listed : db.openFiles.lookup name = some file) (live : db.files file = some f)
    (positive : 0 < f.openCnt) :
    db.openFile name opens address =
      some (.ok file, db.setFile file (some { f with openCnt := f.openCnt + 1 })) := by
  have counted : f.openCnt ≠ 0 := by omega
  simp [openFile, named, listed, live, File.open, counted]

/-- A name that is not in the table needs a file that can be opened. -/
theorem openFile_unlisted (opens : Bool) (address : FilePtr) (named : name ≠ [])
    (unlisted : db.openFiles.lookup name = none) :
    (opens = false ∧ db.openFile name opens address = some (.error .unixErr, db)) ∨
      ∃ table, db.openFiles.insert name address = some table ∧
        db.openFile name opens address =
          some (.ok address, { db.setFile address (some ⟨name, 1⟩) with openFiles := table }) := by
  cases opens with
  | false => exact .inl ⟨rfl, by simp [openFile, named, unlisted, File.open]⟩
  | true =>
    have room : db.openFiles.insert name address ≠ none := fun full =>
      ChainedTable.insert_eq_none.mp full unlisted
    obtain ⟨table, inserted⟩ := Option.ne_none_iff_exists'.mp room
    refine .inr ⟨table, inserted, ?_⟩
    simp [openFile, named, unlisted, File.open, setFile, inserted]

theorem closeFile_shared (fault : Faults P) (closes : Bool) (pointer : file ≠ 0)
    (live : db.files file = some f) (shared : 1 < f.openCnt) :
    db.closeFile file fault closes =
      some (.ok, db.setFile file (some { f with openCnt := f.openCnt - 1 })) := by
  have positive : ¬f.openCnt ≤ 0 := by omega
  have referenced : f.openCnt - 1 ≠ 0 := by omega
  simp [closeFile, pointer, live, close, positive, referenced, setFile, dropClosed]

/-- The last reference goes with the object and the entry of the table, whatever
becomes of the pages. -/
theorem closeFile_last (fault : Faults P) (closes : Bool) (pointer : file ≠ 0)
    (live : db.files file = some f) (listed : db.openFiles.lookup f.fileName = some file)
    (last : f.openCnt = 1) :
    ∃ db', db.closeFile file fault closes = some (.ok, db') ∧
      db'.files = update db.files file none ∧
        db.openFiles.remove f.fileName = some db'.openFiles := by
  have there : db.openFiles.remove f.fileName ≠ none := by
    intro absent
    rw [ChainedTable.remove_eq_none.mp absent] at listed
    cases listed
  obtain ⟨table, removed⟩ := Option.ne_none_iff_exists'.mp there
  cases closes <;>
    simp [closeFile, pointer, live, close, last, setFile, dropClosed, removed]

end DB

namespace FileSession
variable {bufs : Nat} {P : Type} [PageImage P] {s t : FileSession bufs P}

def opens (s : FileSession bufs P) (name : Name) : Nat := s.history.countP (·.opens name)

def closes (s : FileSession bufs P) (name : Name) : Nat := s.history.countP (·.closes name)

def lastOpened (s : FileSession bufs P) (name : Name) : Option FilePtr :=
  s.history.findSome? (·.object name)

def Start (s : FileSession bufs P) : Prop :=
  s.db.openFiles = .empty ∧ (∀ file, s.db.files file = none) ∧ s.history = []

/-- One call. `new` gives an address without an object; a file that exists can be
opened; what is closed is an object that exists. -/
def Step (s : FileSession bufs P) (call : DBCall P) (t : FileSession bufs P) : Prop :=
  match call with
  | .createFile fileName creation =>
    t = { s with directory := (s.db.createFile s.directory fileName creation).2 }
  | .destroyFile fileName => t = { s with directory := (s.db.destroyFile s.directory fileName).2 }
  | .openFile fileName address =>
    address ≠ 0 ∧ s.db.files address = none ∧
      ∃ result db, s.db.openFile fileName (s.directory (path fileName)) address = some (result, db) ∧
        t = ⟨db, s.directory, match result with
          | .ok file => .opened fileName file :: s.history
          | .error _ => s.history⟩
  | .closeFile file fault closes =>
    ∃ f status db, s.db.files file = some f ∧ s.db.closeFile file fault closes = some (status, db) ∧
      t = ⟨db, s.directory, .closed f.fileName :: s.history⟩

structure Books (s : FileSession bufs P) : Prop where
  listed : ∀ {name file}, s.db.openFiles.lookup name = some file → name ≠ [] ∧
    s.lastOpened name = some file ∧ ∃ f, s.db.files file = some f ∧ f.fileName = name
  live : ∀ {file f}, s.db.files file = some f → file ≠ 0 ∧
    s.db.openFiles.lookup f.fileName = some file ∧
    0 < f.openCnt ∧ f.openCnt = s.opens f.fileName - s.closes f.fileName
  balanced : ∀ {name}, s.db.openFiles.lookup name = none → s.opens name = s.closes name

/-- How a name and its object stand after a call: both are gone, or both are
there. -/
inductive Entry (s : FileSession bufs P) (name : Name) (file : FilePtr) : Prop
  | gone (unlisted : s.db.openFiles.lookup name = none) (dead : s.db.files file = none)
      (balanced : s.opens name = s.closes name)
  | held {f : File} (listed : s.db.openFiles.lookup name = some file) (live : s.db.files file = some f)
      (named : f.fileName = name) (pointer : file ≠ 0) (positive : 0 < f.openCnt)
      (counted : f.openCnt = s.opens name - s.closes name) (last : s.lastOpened name = some file)
      (nonempty : name ≠ [])

structure Apart (s t : FileSession bufs P) (name : Name) (file : FilePtr) : Prop where
  names : ∀ {other}, other ≠ name → t.db.openFiles.lookup other = s.db.openFiles.lookup other ∧
    t.opens other = s.opens other ∧ t.closes other = s.closes other ∧
      t.lastOpened other = s.lastOpened other
  objects : ∀ {other}, other ≠ file → t.db.files other = s.db.files other

/-- The name had no other object, and the object no other name. -/
theorem Books.change {name : Name} {file : FilePtr} (books : s.Books)
    (unlisted : ∀ {other}, s.db.openFiles.lookup name = some other → other = file)
    (own : ∀ {f}, s.db.files file = some f → f.fileName = name)
    (apart : s.Apart t name file) (entry : t.Entry name file) : t.Books := by
  constructor
  · intro other file' listed
    by_cases same : other = name
    · subst same
      cases entry with
      | gone unlisted => rw [unlisted] at listed; cases listed
      | held listed' live named _ _ _ last nonempty =>
        obtain rfl := Option.some.inj (listed'.symm.trans listed)
        exact ⟨nonempty, last, _, live, named⟩
    · obtain ⟨lookup, -, -, last⟩ := apart.names same
      rw [lookup] at listed
      obtain ⟨nonempty, last', f, live, named⟩ := books.listed listed
      have distinct : file' ≠ file := by
        rintro rfl
        exact same (named.symm.trans (own live))
      exact ⟨nonempty, last.trans last', f, (apart.objects distinct).trans live, named⟩
  · intro file' f live
    by_cases same : file' = file
    · subst same
      cases entry with
      | gone _ dead => rw [dead] at live; cases live
      | held listed live' named pointer positive counted =>
        obtain rfl := Option.some.inj (live'.symm.trans live)
        rw [named]
        exact ⟨pointer, listed, positive, counted⟩
    · rw [apart.objects same] at live
      obtain ⟨pointer, listed, positive, counted⟩ := books.live live
      have distinct : f.fileName ≠ name := fun named => same (unlisted (named ▸ listed))
      obtain ⟨lookup, opens, closes, -⟩ := apart.names distinct
      rw [lookup, opens, closes]
      exact ⟨pointer, listed, positive, counted⟩
  · intro other unlisted'
    by_cases same : other = name
    · subst same
      cases entry with
      | gone _ _ balanced => exact balanced
      | held listed => rw [listed] at unlisted'; cases unlisted'
    · obtain ⟨lookup, opens, closes, -⟩ := apart.names same
      rw [opens, closes]
      exact books.balanced (lookup ▸ unlisted')

theorem start_books (start : s.Start) : s.Books := by
  obtain ⟨table, objects, history⟩ := start
  constructor
  · intro name file listed
    rw [table] at listed
    cases listed
  · intro file f live
    rw [objects] at live
    cases live
  · intro name _
    simp [opens, closes, history]

/-- An event of one name does not count for another. -/
theorem counts_of_ne {db : DB bufs P} {event : OpenEvent} {name other : Name} (apart : other ≠ name)
    (about : event = .closed name ∨ ∃ file, event = .opened name file) :
    let t : FileSession bufs P := ⟨db, s.directory, event :: s.history⟩
    t.opens other = s.opens other ∧ t.closes other = s.closes other ∧
      t.lastOpened other = s.lastOpened other := by
  rcases about with rfl | ⟨file, rfl⟩ <;>
    simp [opens, closes, lastOpened, OpenEvent.opens, OpenEvent.closes, OpenEvent.object, apart.symm]

theorem openFile_books {fileName : Name} {address : FilePtr} (books : s.Books)
    (step : Step s (.openFile fileName address) t) : t.Books := by
  obtain ⟨pointer, unused, result, db, returned, rfl⟩ := step
  by_cases named : fileName = []
  · simp only [DB.openFile, named, if_true] at returned
    cases returned
    exact books
  cases listed : s.db.openFiles.lookup fileName with
  | some file =>
    obtain ⟨-, -, f, live, name⟩ := books.listed listed
    obtain ⟨nonzero, -, positive, counted⟩ := books.live live
    rw [DB.openFile_listed _ _ named listed live positive] at returned
    cases returned
    refine books.change (fun other => Option.some.inj (other.symm.trans listed))
      (fun live' => Option.some.inj (live.symm.trans live') ▸ name)
      ⟨fun apart => ⟨rfl, counts_of_ne apart (.inr ⟨file, rfl⟩)⟩, fun apart =>
        update_of_ne apart _ _⟩ ?_
    refine .held listed (update_self ..) name nonzero (by simp only; omega) ?_
      (by simp [lastOpened, OpenEvent.object]) named
    rw [name] at counted
    simp [opens, closes, OpenEvent.opens, OpenEvent.closes] at counted ⊢
    omega
  | none =>
    rcases DB.openFile_unlisted (s.directory (path fileName)) address named listed with
      ⟨-, refused⟩ | ⟨table, inserted, done⟩
    · rw [refused] at returned
      cases returned
      exact books
    rw [done] at returned
    cases returned
    have balanced := books.balanced listed
    refine books.change (fun other => by rw [listed] at other; cases other)
      (fun live => by rw [unused] at live; cases live)
      ⟨fun apart => ⟨?_, counts_of_ne apart (.inr ⟨address, rfl⟩)⟩, fun apart =>
        update_of_ne apart _ _⟩ ?_
    · rw [ChainedTable.lookup_insert inserted, if_neg apart]
    · refine .held ?_ (update_self ..) rfl pointer (by simp) ?_
        (by simp [lastOpened, OpenEvent.object]) named
      · rw [ChainedTable.lookup_insert inserted, if_pos rfl]
      · simp [opens, closes, OpenEvent.opens, OpenEvent.closes] at balanced ⊢
        omega

theorem closeFile_books {file : FilePtr} {fault : Faults P} {closes : Bool} (books : s.Books)
    (step : Step s (.closeFile file fault closes) t) : t.Books := by
  obtain ⟨f, status, db, live, returned, rfl⟩ := step
  obtain ⟨pointer, listed, positive, counted⟩ := books.live live
  have unlisted {other : FilePtr} (listed' : s.db.openFiles.lookup f.fileName = some other) :
      other = file :=
    Option.some.inj (listed'.symm.trans listed)
  have own {f' : File} (live' : s.db.files file = some f') : f'.fileName = f.fileName :=
    Option.some.inj (live'.symm.trans live) ▸ rfl
  by_cases shared : 1 < f.openCnt
  · rw [DB.closeFile_shared fault closes pointer live shared] at returned
    cases returned
    refine books.change unlisted own
      ⟨fun apart => ⟨rfl, counts_of_ne apart (.inl rfl)⟩, fun apart => update_of_ne apart _ _⟩ ?_
    obtain ⟨nonempty, last, -⟩ := books.listed listed
    refine .held listed (update_self ..) rfl pointer (by simp only; omega) ?_ ?_ nonempty
    · simp [opens, FileSession.closes, OpenEvent.opens, OpenEvent.closes] at counted ⊢
      omega
    · simpa [lastOpened, OpenEvent.object] using last
  · obtain ⟨db', done, objects, removed⟩ :=
      DB.closeFile_last fault closes pointer live listed (by omega)
    rw [done] at returned
    cases returned
    refine books.change unlisted own
      ⟨fun apart => ⟨?_, counts_of_ne apart (.inl rfl)⟩, fun apart =>
        objects ▸ update_of_ne apart _ _⟩ ?_
    · rw [ChainedTable.lookup_remove removed, if_neg apart]
    · refine .gone ?_ (objects ▸ update_self ..) ?_
      · rw [ChainedTable.lookup_remove removed, if_pos rfl]
      · simp [opens, FileSession.closes, OpenEvent.opens, OpenEvent.closes] at counted ⊢
        omega

theorem step_books {call : DBCall P} (books : s.Books) (step : Step s call t) : t.Books := by
  cases call with
  | createFile fileName creation =>
    obtain rfl := step
    exact ⟨books.listed, books.live, books.balanced⟩
  | destroyFile fileName =>
    obtain rfl := step
    exact ⟨books.listed, books.live, books.balanced⟩
  | openFile fileName address => exact openFile_books books step
  | closeFile file fault closes => exact closeFile_books books step

theorem reachable_books (reached : Transition.Reachable Start Step s) : s.Books :=
  reached.invariant (fun _ => start_books) fun _ _ _ => step_books

/-- In every state that is reached a name is in the table if and only if it was
opened more often than closed. Its object then has the difference as its count
and is the one of the last open, a further open gives it again, it can be closed,
and the file can be neither created nor destroyed. -/
theorem open_files_accounted (reached : Transition.Reachable Start Step s) (name : Name) :
    ((∃ file, s.db.openFiles.lookup name = some file) ↔ s.closes name < s.opens name) ∧
      ∀ file, s.db.openFiles.lookup name = some file →
        (∃ f, s.db.files file = some f ∧ f.fileName = name ∧
          f.openCnt = s.opens name - s.closes name) ∧
        s.lastOpened name = some file ∧
        (∀ opens address, ∃ db, s.db.openFile name opens address = some (.ok file, db)) ∧
        (∀ fault closes, ∃ db, s.db.closeFile file fault closes = some (.ok, db)) ∧
        (∀ creation, s.db.createFile s.directory name creation = (.fileExists, s.directory)) ∧
        s.db.destroyFile s.directory name = (.fileOpen, s.directory) := by
  have books := reachable_books reached
  refine ⟨⟨fun ⟨file, listed⟩ => ?_, fun more => ?_⟩, fun file listed => ?_⟩
  · obtain ⟨-, -, f, live, rfl⟩ := books.listed listed
    obtain ⟨-, -, positive, counted⟩ := books.live live
    omega
  · refine Option.ne_none_iff_exists'.mp fun unlisted => ?_
    have balanced := books.balanced unlisted
    omega
  · obtain ⟨nonempty, last, f, live, rfl⟩ := books.listed listed
    obtain ⟨pointer, -, positive, counted⟩ := books.live live
    refine ⟨⟨f, live, rfl, counted⟩, last,
      fun opens address => ⟨_, DB.openFile_listed opens address nonempty listed live positive⟩,
      fun fault closes => ?_, fun creation => ?_, ?_⟩
    · by_cases shared : 1 < f.openCnt
      · exact ⟨_, DB.closeFile_shared fault closes pointer live shared⟩
      · obtain ⟨db, done, -⟩ := DB.closeFile_last fault closes pointer live listed (by omega)
        exact ⟨db, done⟩
    · simp [DB.createFile, nonempty, listed]
    · simp [DB.destroyFile, nonempty, listed]

def allClosed : FileSession 1 DBPage := 
  ⟨⟨.empty, fun _ => none, BufMgr.new 1 fun _ => ⟨0, fun _ => PageImage.zero, fun _ _ => rfl⟩⟩,
    fun _ => true, []⟩

set_option maxRecDepth 4000 in
/-- A file that was opened three times and closed once has the count two and
cannot be destroyed. -/
theorem open_files_accounted_closed : ∃ s : FileSession 1 DBPage,
    Transition.Reachable Start Step s ∧
      s.history = [.opened [97] 8, .closed [97], .opened [97] 8, .opened [97] 8] ∧
    (∃ file, s.db.openFiles.lookup [97] = some file ∧ ∃ f, s.db.files file = some f ∧
      f.openCnt = 2) ∧
    s.db.destroyFile s.directory [97] = (.fileOpen, s.directory) := by
  have reached : Transition.Reachable Start Step _ := .next (a := .openFile [97] 9)
    (.next (a := .closeFile 8 noFaults true)
      (.next (a := .openFile [97] 9) (.next (a := .openFile [97] 8)
      (.initial (s := allClosed) ⟨rfl, fun _ => rfl, rfl⟩) ⟨by decide, rfl, _, _, rfl, rfl⟩)
      ⟨by decide, rfl, _, _, rfl, rfl⟩) ⟨_, _, _, rfl, rfl, rfl⟩) ⟨by decide, rfl, _, _, rfl, rfl⟩
  obtain ⟨listed, accounted⟩ := open_files_accounted reached [97]
  obtain ⟨file, lookup⟩ := listed.mpr (by decide)
  obtain ⟨⟨f, live, -, counted⟩, -, -, -, -, kept⟩ := accounted file lookup
  exact ⟨_, reached, rfl, ⟨file, lookup, f, live, counted⟩, kept⟩

end FileSession
end Minirel
